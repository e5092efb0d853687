import VpnBot.Bundles.Create

/-!
# Issuing one child of a bundle

`stage_issueAndAttach` says how `issueAndAttach` ends: it returns with an active row that is
attached, or it raises at the first of its calls that fails.  What it leaves then is described by
`Leaves`: a `Residue` of at most one row, and perhaps XRAY degraded; `HarmlessCall` says of which
calls the failure leaves neither an active row nor a client and is no cancellation.
-/

namespace VpnBot.Bundles

open Py Sys

/-! ### States that have grown by one child -/

theorem le_foldr_max {l : List ℕ} {n : ℕ} (h : n ∈ l) : n ≤ l.foldr max 0 := by
  induction l with
  | nil => cases h
  | cons m l ih =>
    rw [List.foldr_cons]
    rcases List.mem_cons.1 h with rfl | h
    · exact le_max_left _ _
    · exact (ih h).trans (le_max_right _ _)

variable {id : ℕ} {Q : BundleError → BundleState → Prop}
  {L : ChildCall → BundleError → BundleState → Prop} {P : Unit → BundleState → Prop}

namespace BundleState

/-- No row and no client has the id. -/
def Unused (s : BundleState) (id : ℕ) : Prop := (∀ key ∈ s.keys, key.id ≠ id) ∧ id ∉ s.clients

theorem unused_freshKeyId (s : BundleState) : s.Unused s.freshKeyId := by
  have hlt : ∀ n ∈ s.keys.map VpnKey.id ++ s.clients, n ≠ s.freshKeyId := fun n hn =>
    (Nat.lt_succ_of_le (le_foldr_max hn)).ne
  constructor
  · intro key hkey
    exact hlt _ (List.mem_append_left _ (List.mem_map_of_mem hkey))
  · intro hmem
    exact hlt _ (List.mem_append_right _ hmem) rfl

/-- The state with one more row, and with its client if it is live. -/
def child (s : BundleState) (row : VpnKey) (live : Bool) : BundleState :=
  { s with
    keys := s.keys ++ [row]
    clients := if live then s.clients ++ [row.id] else s.clients }

variable {s : BundleState} {row : VpnKey} {live : Bool}

@[simp] theorem child_keys : (s.child row live).keys = s.keys ++ [row] := rfl

theorem updateKey_child (hid : row.id = id) (h : s.Unused id) {f : VpnKey → VpnKey}
    (hf : (f row).id = row.id) : (s.child row live).updateKey id f = s.child (f row) live := by
  have hold : s.keys.map (fun key => if key.id = id then f key else key) = s.keys :=
    (List.map_congr_left fun key hkey => if_neg (h.1 key hkey)).trans (List.map_id _)
  simp only [updateKey, child, List.map_append, hold, List.map_cons, List.map_nil, hf, hid, if_true]

theorem addClient_child (hid : row.id = id) :
    (s.child row false).addClient id = s.child row true := by
  subst hid
  rfl

theorem removeClient_child (hid : row.id = id) (h : s.Unused id) :
    (s.child row live).removeClient id = s.child row false := by
  have hold : s.clients.filter (· ≠ id) = s.clients := by
    refine List.filter_eq_self.2 fun c hc => decide_eq_true ?_
    rintro rfl
    exact h.2 hc
  cases live with
  | false => simp only [removeClient, child, hold, Bool.false_eq_true, if_false]
  | true =>
    subst hid
    simp only [removeClient, child, if_true, List.filter_append, hold, Bool.false_eq_true, if_false]
    simp

theorem hardDelete_child (hid : row.id = id) (h : s.Unused id) :
    (s.child row false).hardDelete id = s := by
  have hold : s.keys.filter (fun key => key.id ≠ id) = s.keys :=
    List.filter_eq_self.2 fun key hkey => by simpa using h.1 key hkey
  simp only [hardDelete, child, List.filter_append, hold, Bool.false_eq_true, if_false]
  simp [hid]

theorem updateKey_child_of_ne (hid : row.id ≠ id) (f : VpnKey → VpnKey) :
    (s.child row live).updateKey id f = (s.updateKey id f).child row live := by
  simp only [updateKey, child, List.map_append, List.map_cons, List.map_nil, if_neg hid]

theorem removeClient_child_of_ne (hid : row.id ≠ id) :
    (s.child row live).removeClient id = (s.removeClient id).child row live := by
  cases live with
  | false => rfl
  | true =>
    simp only [removeClient, child, if_true, List.filter_append]
    simp [hid]

theorem hardDelete_child_of_ne (hid : row.id ≠ id) :
    (s.child row live).hardDelete id = (s.hardDelete id).child row live := by
  simp only [hardDelete, child, List.filter_append]
  simp [hid]

end BundleState

/-! ### What a failed child leaves -/

/-- What a failed child has left: a row, perhaps live, and whether it has degraded XRAY. -/
structure Residue where
  row : Option (VpnKey × Bool)
  degraded : Bool

/-- The state with what a failed child has left. -/
def withResidue (s : BundleState) (residue : Residue) : BundleState :=
  (match residue.row with
    | none => s
    | some (row, live) => s.child row live).degrade residue.degraded

/-- What a failed child has left is neither active nor live. -/
def Residue.Harmless (residue : Residue) : Prop :=
  ∀ row live, residue.row = some (row, live) → row.status ≠ .active ∧ live = false

/-- What a failed child can leave beside the rows of `s`: a new row, attached only when active. -/
structure Residue.Beside (residue : Residue) (s : BundleState) : Prop where
  fresh : ∀ row live, residue.row = some (row, live) → s.Unused row.id
  attached : ∀ row live, residue.row = some (row, live) → row.bundleId ≠ none → row.status = .active

/-! ### The first call that fails -/

section Faulty

variable (faults : Faults)

@[simp] theorem isCancelled_error (fault : Fault) (site : CallSite) :
    (fault.error site).isCancelled = fault.cancelled := by
  unfold Fault.error
  cases fault.cancelled <;> rfl

theorem ends_call (site : CallSite) (effect : BundleState → BundleState) {s : BundleState} :
    Program.Ends (call faults site effect) P Q s ↔
      match faults site with
      | none => P () (effect s)
      | some fault => Q (fault.error site) (if fault.call = .before then s else effect s) := by
  unfold call
  cases faults site with
  | none => exact Iff.rfl
  | some fault =>
    rw [Program.ends_call]
    obtain ⟨call, cancelled⟩ := fault
    cases call <;> exact Iff.rfl

theorem ends_query (site : CallSite) {s : BundleState} :
    Program.Ends (query faults site) P Q s ↔
      match faults site with
      | none => P () s
      | some fault => Q (fault.error site) s := by
  rw [query, ends_call]
  cases faults site with
  | none => exact Iff.rfl
  | some fault =>
    dsimp only
    rw [id_eq, ite_self]

theorem ends_tryException {α : Type} {p : BundleM α} {handler : BundleError → BundleM α}
    {P : α → BundleState → Prop} {s : BundleState} :
    Program.Ends (tryException p handler) P Q s ↔ Program.Ends p P
      (fun e s' => if e.isCancelled then Q e s' else Program.Ends (handler e) P Q s') s :=
  Program.ends_tryExcept

theorem ends_attempt (p : BundleM Unit) {P : Bool → BundleState → Prop} {s : BundleState} :
    Program.Ends (attempt p) P Q s ↔ Program.Ends p (fun _ s' => P true s')
      (fun e s' => if e.isCancelled then Q e s' else P false s') s := by
  rw [attempt, ends_tryException, Program.ends_bind]
  exact Iff.rfl

theorem ends_requireXrayAllowed {s : BundleState} : Program.Ends requireXrayAllowed P Q s ↔
      if s.xrayDegraded then Q .degraded s else P () s := by
  rw [requireXrayAllowed, Program.ends_bind, Program.ends_get]
  cases s.xrayDegraded <;> exact Iff.rfl

/-- The calls made to issue a child when none of them fails. -/
def issueCalls (member : BundleMember) : List ChildCall :=
  match member.keyType with
  | .xray =>
    [.checks, .insertPending, .readPending, .link, .recheck, .addClient, .markActive, .readActive,
      .config]
  | .hysteria2 => [.checks, .insertPending, .readPending, .markActive, .readActive, .config]

/-- The first of the calls that fails. -/
def faultIn (k : ℕ) (calls : List ChildCall) : Option ChildCall :=
  calls.find? fun c => (faults (.child k c)).isSome

/-- The first call for a child that fails. -/
def childFault (k : ℕ) (member : BundleMember) : Option ChildCall :=
  faultIn faults k (issueCalls member ++ [.attach])

/-- The call takes effect, also when it fails. -/
def TakesEffect (site : CallSite) : Prop := ∀ fault ∈ faults site, fault.call = .after

/-- The call does not fail by a cancellation. -/
def NotCancelled (site : CallSite) : Prop := ∀ fault ∈ faults site, fault.cancelled = false

/-- The failure of a call is no cancellation, and it leaves neither an active row nor a client: it
comes before the client is added, or the client has not been added, or the row has not become active
and what was done is taken back. -/
def HarmlessCall (k : ℕ) (member : BundleMember) (c : ChildCall) : Prop :=
  NotCancelled faults (.child k c) ∧
    match c, member.keyType with
    | .checks, _ | .insertPending, _ | .readPending, _ | .link, _ => True
    | .recheck, _ => NotCancelled faults (.child k .markApplyFailed)
    | .addClient, _ =>
      ¬ TakesEffect faults (.child k .addClient) ∧ NotCancelled faults (.child k .markApplyFailed)
    | .markActive, .xray =>
      NotCancelled faults (.child k .compensate) ∧ TakesEffect faults (.child k .compensate) ∧
        (faults (.child k .compensate) = none → NotCancelled faults (.child k .markCompensated)) ∧
        (TakesEffect faults (.child k .markActive) →
          faults (.child k .compensate) = none ∧ TakesEffect faults (.child k .markCompensated))
    | .markActive, .hysteria2 =>
      NotCancelled faults (.child k .markApplyFailed) ∧
        (TakesEffect faults (.child k .markActive) → TakesEffect faults (.child k .markApplyFailed))
    | _, _ => False

/-- The failure of a call degrades XRAY: the client cannot be taken back. -/
def degrades (k : ℕ) (member : BundleMember) (c : ChildCall) : Bool :=
  c = .markActive && member.keyType = .xray && (faults (.child k .compensate)).isSome

/-- What a child that fails at a call leaves in the state: a residue, or no more than that the
failure was not harmless when the task is cancelled. -/
def Leaves (k : ℕ) (member : BundleMember) (s : BundleState) (c : ChildCall) (e : BundleError)
    (s' : BundleState) : Prop :=
  if e.isCancelled then ¬ HarmlessCall faults k member c ∧ s'.bundles = s.bundles
  else ∃ residue : Residue, s' = withResidue s residue ∧ residue.Beside s ∧
    (residue.Harmless ↔ HarmlessCall faults k member c) ∧ residue.degraded = degrades faults k member c

/-- A part of the issuing with its calls: it returns in `P` when none of them fails, and else it
raises at the first one that does, in `L`. -/
def Stage {α : Type} (k : ℕ) (p : BundleM α) (calls : List ChildCall) (P : α → BundleState → Prop)
    (L : ChildCall → BundleError → BundleState → Prop) (s : BundleState) : Prop :=
  Program.Ends p (fun a s' => faultIn faults k calls = none ∧ P a s')
    (fun e s' => ∃ c, faultIn faults k calls = some c ∧ L c e s') s

variable {faults}

theorem Stage.bind {α β : Type} {k : ℕ} {p : BundleM α} {f : α → BundleM β}
    (calls : List ChildCall) {calls' : List ChildCall} {P : α → BundleState → Prop}
    {R : β → BundleState → Prop} {s : BundleState} (h : Stage faults k p calls P L s)
    (h' : ∀ a s', P a s' → Stage faults k (f a) calls' R L s') :
    Stage faults k (p >>= f) (calls ++ calls') R L s := by
  have happend : faultIn faults k (calls ++ calls') =
      (faultIn faults k calls).or (faultIn faults k calls') := List.find?_append
  rw [Stage, Program.ends_bind]
  refine Program.Ends.mono h ?_ ?_
  · rintro a s₁ ⟨hnone, ha⟩
    rw [happend, hnone]
    exact h' a s₁ ha
  · rintro e s₁ ⟨c, hc, hl⟩
    exact ⟨c, by rw [happend, hc]; rfl, hl⟩

theorem stage_pure {α : Type} (k : ℕ) (a : α) {P : α → BundleState → Prop} {s : BundleState} (h : P a s) :
    Stage faults k (pure a) [] P L s := ⟨rfl, h⟩

theorem stage_call (k : ℕ) (c : ChildCall) (effect : BundleState → BundleState) {s : BundleState}
    (h : ∀ fault, faults (.child k c) = some fault →
      L c (fault.error (.child k c)) (if fault.call = .before then s else effect s)) :
    Stage faults k (call faults (.child k c) effect) [c] (fun _ s' => s' = effect s) L s := by
  rw [Stage, ends_call, faultIn]
  cases hc : faults (.child k c) with
  | none => exact ⟨by simp [hc], rfl⟩
  | some fault => exact ⟨c, by simp [hc], h fault hc⟩

theorem stage_query (k : ℕ) (c : ChildCall) {s : BundleState}
    (h : ∀ fault, faults (.child k c) = some fault → L c (fault.error (.child k c)) s) :
    Stage faults k (query faults (.child k c)) [c] (fun _ s' => s' = s) L s := by
  rw [Stage, ends_query, faultIn]
  cases hc : faults (.child k c) with
  | none => exact ⟨by simp [hc], rfl⟩
  | some fault => exact ⟨c, by simp [hc], h fault hc⟩

/-! ### Issuing one child -/

/-- The row of a child that is issued to `s` while it is not attached. -/
def issuedRow (s : BundleState) (member : BundleMember) (status : VpnKeyStatus) : VpnKey :=
  ⟨s.freshKeyId, member, status, none⟩

section Leaving

variable {k : ℕ} {member : BundleMember} {s s' : BundleState} {c : ChildCall} {e : BundleError} {fault : Fault}

theorem notCancelled_iff {site : CallSite} (h : faults site = some fault) :
    NotCancelled faults site ↔ fault.cancelled = false := by
  simp [NotCancelled, h]

theorem takesEffect_iff {site : CallSite} (h : faults site = some fault) :
    TakesEffect faults site ↔ fault.call = .after := by
  simp [TakesEffect, h]

theorem leaves_of_cancelled (he : e.isCancelled = true) (hc : ¬ HarmlessCall faults k member c)
    (hbundles : s'.bundles = s.bundles) : Leaves faults k member s c e s' := by
  rw [Leaves, if_pos he]
  exact ⟨hc, hbundles⟩

theorem leaves_row (row : VpnKey) (live degraded : Bool) (he : e.isCancelled = false)
    (hid : row.id = s.freshKeyId) (hattached : row.bundleId ≠ none → row.status = .active)
    (hc : HarmlessCall faults k member c ↔ row.status ≠ .active ∧ live = false)
    (hdegraded : degraded = degrades faults k member c) :
    Leaves faults k member s c e ((s.child row live).degrade degraded) := by
  rw [Leaves, if_neg (by simp [he])]
  refine ⟨⟨some (row, live), degraded⟩, rfl, ⟨?_, ?_⟩, ?_, hdegraded⟩
  · rintro row live ⟨⟩
    rw [hid]
    exact s.unused_freshKeyId
  · rintro row live ⟨⟩
    exact hattached
  · rw [hc]
    refine ⟨fun h => h row live rfl, fun h => ?_⟩
    rintro row live ⟨⟩
    exact h

theorem leaves_nothing (hfault : faults (.child k c) = some fault) (hdegrades : degrades faults k member c = false)
    (hc : fault.cancelled = false → HarmlessCall faults k member c) :
    Leaves faults k member s c (fault.error (.child k c)) s := by
  by_cases hcancelled : fault.cancelled = true
  · refine leaves_of_cancelled (by simp [hcancelled]) (fun h => ?_) rfl
    exact absurd ((notCancelled_iff hfault).1 h.1) (by simp [hcancelled])
  · rw [Bool.not_eq_true] at hcancelled
    rw [Leaves, if_neg (by simp [hcancelled])]
    refine ⟨⟨none, false⟩, rfl, ⟨nofun, nofun⟩, iff_of_true nofun (hc hcancelled), hdegrades.symm⟩

theorem leaves_issued (row : VpnKey) (live : Bool) (hfault : faults (.child k c) = some fault)
    (hid : row.id = s.freshKeyId) (hattached : row.bundleId ≠ none → row.status = .active)
    (hdegrades : degrades faults k member c = false)
    (hc : fault.cancelled = false → (HarmlessCall faults k member c ↔ row.status ≠ .active ∧ live = false)) :
    Leaves faults k member s c (fault.error (.child k c)) (s.child row live) := by
  by_cases hcancelled : fault.cancelled = true
  · refine leaves_of_cancelled (by simp [hcancelled]) (fun h => ?_) rfl
    exact absurd ((notCancelled_iff hfault).1 h.1) (by simp [hcancelled])
  · rw [Bool.not_eq_true] at hcancelled
    exact leaves_row row live false (by simp [hcancelled]) hid hattached (hc hcancelled) hdegrades.symm

theorem leaves_active (row : VpnKey) (live : Bool) (hfault : faults (.child k c) = some fault)
    (hid : row.id = s.freshKeyId) (ha : row.status = .active) (hdegrades : degrades faults k member c = false)
    (hc : ¬ HarmlessCall faults k member c) :
    Leaves faults k member s c (fault.error (.child k c)) (s.child row live) :=
  leaves_issued row live hfault hid (fun _ => ha) hdegrades fun _ => ⟨fun h => absurd h hc, fun h => absurd ha h.1⟩

end Leaving

theorem setStatus_issued (s : BundleState) (member : BundleMember) (status status' : VpnKeyStatus)
    (live : Bool) :
    (s.child (issuedRow s member status) live).setStatus s.freshKeyId status' =
      s.child (issuedRow s member status') live := by
  have hid : (issuedRow s member status).id = s.freshKeyId := rfl
  rw [BundleState.setStatus, BundleState.updateKey_child hid s.unused_freshKeyId] <;> rfl

theorem markActive_issued (s : BundleState) (member : BundleMember) (live : Bool) :
    (s.child (issuedRow s member .pendingApply) live).markActive s.freshKeyId =
      s.child (issuedRow s member .active) live := by
  have hid : (issuedRow s member .pendingApply).id = s.freshKeyId := rfl
  rw [BundleState.markActive, BundleState.updateKey_child hid s.unused_freshKeyId] <;> rfl

theorem addClient_issued (s : BundleState) (member : BundleMember) (status : VpnKeyStatus) :
    (s.child (issuedRow s member status) false).addClient s.freshKeyId =
      s.child (issuedRow s member status) true :=
  BundleState.addClient_child rfl

theorem removeClient_issued (s : BundleState) (member : BundleMember) (status : VpnKeyStatus)
    (live : Bool) :
    (s.child (issuedRow s member status) live).removeClient s.freshKeyId =
      s.child (issuedRow s member status) false :=
  BundleState.removeClient_child rfl s.unused_freshKeyId

/-- The calls at which no client can have been left behind do not degrade XRAY. -/
theorem degrades_of_ne {k : ℕ} {member : BundleMember} {c : ChildCall} (h : c ≠ .markActive) :
    degrades faults k member c = false := by
  simp [degrades, h]

theorem stage_createPending (k : ℕ) (member : BundleMember) (s : BundleState) :
    Stage faults k (createPending faults k member) [.insertPending, .readPending]
      (fun id s' => id = s.freshKeyId ∧ s' = s.child (issuedRow s member .pendingApply) false)
      (Leaves faults k member s) s := by
  have hpending : ∀ c fault, faults (.child k c) = some fault → c ≠ .markActive →
      (fault.cancelled = false → HarmlessCall faults k member c) →
      Leaves faults k member s c (fault.error (.child k c)) (s.insertPending member) := fun c fault hfault hne hc =>
    leaves_issued (issuedRow s member .pendingApply) false hfault rfl nofun (degrades_of_ne hne)
      fun hcancelled => iff_of_true (hc hcancelled) ⟨nofun, rfl⟩
  have hget : Stage faults k get [] (fun a s' => a = s ∧ s' = s) (Leaves faults k member s) s :=
    ⟨rfl, rfl, rfl⟩
  refine Stage.bind [] hget ?_
  rintro _ _ ⟨rfl, rfl⟩
  refine Stage.bind [.insertPending] (stage_call k _ _ fun fault hfault => ?_) ?_
  · have hc : fault.cancelled = false → HarmlessCall faults k member .insertPending :=
      fun h => ⟨(notCancelled_iff hfault).2 h, trivial⟩
    split_ifs
    · exact leaves_nothing hfault (degrades_of_ne nofun) hc
    · exact hpending _ fault hfault nofun hc
  rintro _ _ rfl
  refine Stage.bind [.readPending] (stage_query k _ fun fault hfault =>
    hpending _ fault hfault nofun fun h => ⟨(notCancelled_iff hfault).2 h, trivial⟩) ?_
  rintro _ _ rfl
  exact stage_pure k _ ⟨rfl, rfl⟩

theorem ends_markFailed {k : ℕ} {member : BundleMember} {s : BundleState} {c : ChildCall} {live : Bool}
    {e : BundleError} (he : e.isCancelled = false) (hdegrades : degrades faults k member c = false)
    (hcancelled : ¬ NotCancelled faults (.child k .markApplyFailed) → ¬ HarmlessCall faults k member c)
    (h : NotCancelled faults (.child k .markApplyFailed) → (HarmlessCall faults k member c ↔ live = false)) :
    Program.Ends (call faults (.child k .markApplyFailed) (BundleState.setStatus s.freshKeyId .applyFailed))
      (fun _ s' => Leaves faults k member s c e s') (fun e' s' => Leaves faults k member s c e' s')
      (s.child (issuedRow s member .pendingApply) live) := by
  have hleaves : ∀ e' : BundleError, e'.isCancelled = false → NotCancelled faults (.child k .markApplyFailed) →
      ∀ status, status ≠ .active → Leaves faults k member s c e' (s.child (issuedRow s member status) live) :=
    fun e' he' hnot status hstatus => leaves_row (issuedRow s member status) live false he' rfl nofun
      ((h hnot).trans (and_iff_right hstatus).symm) hdegrades.symm
  rw [ends_call, setStatus_issued]
  cases hfault : faults (.child k .markApplyFailed) with
  | none => exact hleaves e he (by simp [NotCancelled, hfault]) _ nofun
  | some fault =>
    by_cases hc : fault.cancelled = false
    · have hnot := (notCancelled_iff hfault).2 hc
      dsimp only
      split_ifs
      · exact hleaves _ (by simp [hc]) hnot _ nofun
      · exact hleaves _ (by simp [hc]) hnot _ nofun
    · have hnot := (notCancelled_iff hfault).not.2 hc
      refine leaves_of_cancelled (by simpa using hc) (hcancelled hnot) ?_
      split_ifs
      · rfl
      · rfl

theorem stage_applyXrayClient (k : ℕ) (member : BundleMember) (s : BundleState) :
    Stage faults k (applyXrayClient faults k s.freshKeyId) [.recheck, .addClient]
      (fun _ s' => s' = s.child (issuedRow s member .pendingApply) true)
      (Leaves faults k member s) (s.child (issuedRow s member .pendingApply) false) := by
  -- the handler leaves what the failing call leaves, up to the status
  have hhandler : ∀ c live fault, faultIn faults k [.recheck, .addClient] = some c → c ≠ .markActive →
      faults (.child k c) = some fault →
      (HarmlessCall faults k member c ↔ fault.cancelled = false ∧
        NotCancelled faults (.child k .markApplyFailed) ∧ live = false) →
      if (fault.error (.child k c)).isCancelled then
        ∃ c', faultIn faults k [.recheck, .addClient] = some c' ∧ Leaves faults k member s c'
          (fault.error (.child k c)) (s.child (issuedRow s member .pendingApply) live)
      else Program.Ends
        (do
          call faults (.child k .markApplyFailed) (BundleState.setStatus s.freshKeyId .applyFailed)
          (throw (fault.error (.child k c)) : BundleM Unit))
        (fun _ s' => faultIn faults k [.recheck, .addClient] = none ∧
          s' = s.child (issuedRow s member .pendingApply) true)
        (fun e s' => ∃ c', faultIn faults k [.recheck, .addClient] = some c' ∧ Leaves faults k member s c' e s')
        (s.child (issuedRow s member .pendingApply) live) := by
    intro c live fault hc hne hfault hharm
    split_ifs with hcancelled
    · rw [isCancelled_error] at hcancelled
      refine ⟨c, hc, leaves_of_cancelled (by simp [hcancelled]) (fun h => ?_) rfl⟩
      rw [(hharm.1 h).1] at hcancelled
      cases hcancelled
    · rw [isCancelled_error, Bool.not_eq_true] at hcancelled
      rw [Program.ends_bind]
      refine (ends_markFailed (e := fault.error (.child k c)) (by simp [hcancelled]) (degrades_of_ne hne)
        (fun hnot h => hnot (hharm.1 h).2.1) fun hnot => ?_).mono (fun _ _ h => ⟨c, hc, h⟩) fun _ _ h => ⟨c, hc, h⟩
      rw [hharm]
      simp [hcancelled, hnot]
  rw [Stage, applyXrayClient, ends_tryException, Program.ends_bind, ends_query]
  cases hrecheck : faults (.child k .recheck) with
  | some fault =>
    refine hhandler .recheck false fault (by simp [faultIn, hrecheck]) nofun hrecheck ?_
    simp [HarmlessCall, notCancelled_iff hrecheck]
  | none =>
    dsimp only
    rw [ends_call, addClient_issued]
    cases hadd : faults (.child k .addClient) with
    | none => exact ⟨by simp [faultIn, hrecheck, hadd], rfl⟩
    | some fault =>
      have hc : faultIn faults k [.recheck, .addClient] = some .addClient := by
        simp [faultIn, hrecheck, hadd]
      have hharm := hhandler .addClient (fault.call = .after) fault hc nofun hadd (by
        simp [HarmlessCall, notCancelled_iff hadd, takesEffect_iff hadd]
        tauto)
      obtain ⟨call, cancelled⟩ := fault
      cases call <;> exact hharm

/-- The compensation of a failed activation: what it leaves depends on which of its own calls fail.
-/
theorem ends_compensate (k : ℕ) (s : BundleState) (member : BundleMember) (status : VpnKeyStatus) :
    Program.Ends (compensateFailedCreateAfterApply faults k s.freshKeyId)
      (fun _ s' => (NotCancelled faults (.child k .compensate) ∧
          (faults (.child k .compensate) = none → NotCancelled faults (.child k .markCompensated))) ∧
        ∃ status' live,
          s' = (s.child (issuedRow s member status') live).degrade (faults (.child k .compensate)).isSome ∧
          (live = false ↔ TakesEffect faults (.child k .compensate)) ∧
          (status' = .active ↔ status = .active ∧ ¬ (faults (.child k .compensate) = none ∧
            TakesEffect faults (.child k .markCompensated))))
      (fun e s' => e.isCancelled = true ∧ ¬ (NotCancelled faults (.child k .compensate) ∧
          (faults (.child k .compensate) = none → NotCancelled faults (.child k .markCompensated))) ∧
        s'.bundles = s.bundles)
      (s.child (issuedRow s member status) true) := by
  -- a removal that raises degrades XRAY; one that is cancelled passes the handler
  rw [compensateFailedCreateAfterApply, Program.ends_bind, ends_attempt, ends_call, removeClient_issued]
  cases hremove : faults (.child k .compensate) with
  | some fault =>
    obtain ⟨call, cancelled⟩ := fault
    cases cancelled with
    | true =>
      refine ⟨rfl, by simp [notCancelled_iff hremove], ?_⟩
      cases call <;> rfl
    | false =>
      cases call with
      | before => exact ⟨by simp [notCancelled_iff hremove], status, true, rfl, by simp [takesEffect_iff hremove], by simp⟩
      | after => exact ⟨by simp [notCancelled_iff hremove], status, false, rfl, by simp [takesEffect_iff hremove], by simp⟩
  | none =>
    have hnot : NotCancelled faults (.child k .compensate) := by simp [NotCancelled, hremove]
    have heffect : TakesEffect faults (.child k .compensate) := by simp [TakesEffect, hremove]
    dsimp only
    rw [if_pos rfl, Program.ends_bind, ends_attempt, ends_call, setStatus_issued]
    cases hmark : faults (.child k .markCompensated) with
    | none =>
      exact ⟨⟨hnot, fun _ => by simp [NotCancelled, hmark]⟩, .applyFailed, false, rfl, by simp [heffect],
        by simp [TakesEffect, hmark]⟩
    | some fault =>
      obtain ⟨call, cancelled⟩ := fault
      cases cancelled with
      | true =>
        refine ⟨rfl, by simp [notCancelled_iff hmark], ?_⟩
        cases call <;> rfl
      | false =>
        have hnot' : NotCancelled faults (.child k .markCompensated) := (notCancelled_iff hmark).2 rfl
        cases call with
        | before =>
          exact ⟨⟨hnot, fun _ => hnot'⟩, status, false, rfl, by simp [heffect], by simp [takesEffect_iff hmark]⟩
        | after =>
          exact ⟨⟨hnot, fun _ => hnot'⟩, .applyFailed, false, rfl, by simp [heffect], by simp [takesEffect_iff hmark]⟩

theorem stage_activateXrayKey (k : ℕ) {member : BundleMember} (hm : member.keyType = .xray)
    (s : BundleState) :
    Stage faults k (activateXrayKey faults k s.freshKeyId) [.markActive]
      (fun _ s' => s' = s.child (issuedRow s member .active) true)
      (Leaves faults k member s) (s.child (issuedRow s member .pendingApply) true) := by
  rw [Stage, activateXrayKey, ends_tryException, ends_call, markActive_issued]
  cases hmark : faults (.child k .markActive) with
  | none => exact ⟨by simp [faultIn, hmark], rfl⟩
  | some fault =>
    have hc : faultIn faults k [.markActive] = some .markActive := by simp [faultIn, hmark]
    dsimp only
    rw [← apply_ite (fun status => s.child (issuedRow s member status) true), isCancelled_error]
    by_cases hcancelled : fault.cancelled = true
    · rw [if_pos hcancelled]
      refine ⟨_, hc, leaves_of_cancelled (by simp [hcancelled]) (fun h => ?_) rfl⟩
      exact absurd ((notCancelled_iff hmark).1 h.1) (by simp [hcancelled])
    · rw [if_neg hcancelled, Program.ends_bind]
      rw [Bool.not_eq_true] at hcancelled
      refine (ends_compensate k s member _).mono ?_ ?_
      · rintro - _ ⟨⟨hnot, hnot'⟩, status, live, rfl, hlive, hstatus⟩
        refine ⟨_, hc, leaves_row _ _ _ (by simp [hcancelled]) rfl nofun ?_ (by simp [degrades, hm])⟩
        have hactive : (if fault.call = .before then VpnKeyStatus.pendingApply else .active) = .active ↔
            TakesEffect faults (.child k .markActive) := by
          rw [takesEffect_iff hmark]
          cases fault.call <;> simp
        rw [hactive] at hstatus
        simp only [HarmlessCall, hm, notCancelled_iff hmark, hcancelled, hlive]
        change True ∧ _ ↔ status ≠ .active ∧ _
        rw [Ne, hstatus]
        tauto
      · rintro e s' ⟨he, hnot, hbundles⟩
        refine ⟨_, hc, leaves_of_cancelled he (fun h => hnot ?_) hbundles⟩
        simp only [HarmlessCall, hm] at h
        exact ⟨h.2.1, h.2.2.2.1⟩

theorem stage_activateHysteria2Key (k : ℕ) {member : BundleMember}
    (hm : member.keyType = .hysteria2) (s : BundleState) :
    Stage faults k (activateHysteria2Key faults k s.freshKeyId) [.markActive]
      (fun _ s' => s' = s.child (issuedRow s member .active) false)
      (Leaves faults k member s) (s.child (issuedRow s member .pendingApply) false) := by
  rw [Stage, activateHysteria2Key, ends_tryException, ends_call, markActive_issued]
  cases hmark : faults (.child k .markActive) with
  | none => exact ⟨by simp [faultIn, hmark], rfl⟩
  | some fault =>
    have hc : faultIn faults k [.markActive] = some .markActive := by simp [faultIn, hmark]
    have hdegrades : degrades faults k member .markActive = false := by simp [degrades, hm]
    have hharm : HarmlessCall faults k member .markActive ↔ fault.cancelled = false ∧
        NotCancelled faults (.child k .markApplyFailed) ∧
          (fault.call = .after → TakesEffect faults (.child k .markApplyFailed)) := by
      simp only [HarmlessCall, hm, notCancelled_iff hmark, takesEffect_iff hmark]
    dsimp only
    rw [← apply_ite (fun status => s.child (issuedRow s member status) false), isCancelled_error]
    by_cases hcancelled : fault.cancelled = true
    · rw [if_pos hcancelled]
      refine ⟨_, hc, leaves_of_cancelled (by simp [hcancelled]) (fun h => ?_) rfl⟩
      rw [(hharm.1 h).1] at hcancelled
      cases hcancelled
    · rw [if_neg hcancelled, Program.ends_bind, ends_attempt, ends_call, setStatus_issued]
      rw [Bool.not_eq_true] at hcancelled
      have hleaves : ∀ status, (HarmlessCall faults k member .markActive ↔ status ≠ .active) →
          ∃ c, faultIn faults k [.markActive] = some c ∧ Leaves faults k member s c
            (fault.error (.child k .markActive)) (s.child (issuedRow s member status) false) := fun status h =>
        ⟨_, hc, leaves_row (issuedRow s member status) false false (by simp [hcancelled]) rfl nofun
          (h.trans (and_iff_left rfl).symm) hdegrades.symm⟩
      cases hfailed : faults (.child k .markApplyFailed) with
      | none =>
        refine hleaves .applyFailed (iff_of_true ?_ nofun)
        exact hharm.2 ⟨hcancelled, by simp [NotCancelled, hfailed], fun _ => by simp [TakesEffect, hfailed]⟩
      | some fault' =>
        rw [notCancelled_iff hfailed, takesEffect_iff hfailed] at hharm
        obtain ⟨call, cancelled⟩ := fault'
        cases cancelled with
        | true =>
          refine ⟨_, hc, leaves_of_cancelled rfl (fun h => ?_) (by cases call <;> rfl)⟩
          cases (hharm.1 h).2.1
        | false =>
          cases call with
          | before =>
            refine hleaves _ (hharm.trans ?_)
            cases fault.call <;> simp [hcancelled]
          | after => exact hleaves .applyFailed (iff_of_true (hharm.2 ⟨hcancelled, rfl, fun _ => rfl⟩) nofun)

theorem stage_requireXrayAllowed {k : ℕ} {s : BundleState} (h : s.xrayDegraded = false) :
    Stage faults k requireXrayAllowed [] (fun _ s' => s' = s) L s := by
  rw [Stage, ends_requireXrayAllowed, if_neg (by simp [h])]
  exact ⟨rfl, rfl⟩

theorem stage_provisionChild (k : ℕ) (member : BundleMember) (s : BundleState)
    (hallowed : member.hasClient = true → s.xrayDegraded = false) :
    Stage faults k (provisionChild faults k member) (issueCalls member)
      (fun id s' => id = s.freshKeyId ∧
        s' = s.child (issuedRow s member .active) member.hasClient)
      (Leaves faults k member s) s := by
  have hactive : ∀ c live, c ≠ .markActive → (HarmlessCall faults k member c → False) → ∀ fault,
      faults (.child k c) = some fault →
      Leaves faults k member s c (fault.error (.child k c)) (s.child (issuedRow s member .active) live) :=
    fun c live hne hc fault hfault => leaves_active _ _ hfault rfl rfl (degrades_of_ne hne) hc
  have hchecks : Stage faults k (query faults (.child k .checks)) [.checks] (fun _ s' => s' = s)
      (Leaves faults k member s) s :=
    stage_query k _ fun fault hfault => leaves_nothing hfault (degrades_of_ne nofun)
      fun h => ⟨(notCancelled_iff hfault).2 h, trivial⟩
  have hlink : ∀ fault, faults (.child k .link) = some fault → Leaves faults k member s .link
      (fault.error (.child k .link)) (s.child (issuedRow s member .pendingApply) false) := fun fault hfault =>
    leaves_issued _ _ hfault rfl nofun (degrades_of_ne nofun)
      fun h => iff_of_true ⟨(notCancelled_iff hfault).2 h, trivial⟩ ⟨nofun, rfl⟩
  cases hm : member.keyType with
  | xray =>
    have hclient : member.hasClient = true := by simp [BundleMember.hasClient, hm]
    simp only [provisionChild, issueCalls, hm, hclient, createXrayKey]
    refine Stage.bind [] (stage_requireXrayAllowed (hallowed hclient)) ?_
    rintro _ _ rfl
    refine Stage.bind [.checks] hchecks ?_
    rintro _ _ rfl
    refine Stage.bind [.insertPending, .readPending] (stage_createPending k member _) ?_
    rintro _ _ ⟨rfl, rfl⟩
    refine Stage.bind [.link] (stage_query k _ hlink) ?_
    rintro _ _ rfl
    refine Stage.bind [.recheck, .addClient] (stage_applyXrayClient k member _) ?_
    rintro _ _ rfl
    refine Stage.bind [.markActive] (stage_activateXrayKey k hm _) ?_
    rintro _ _ rfl
    refine Stage.bind [.readActive] (stage_query k _ (hactive _ _ nofun fun h => h.2)) ?_
    rintro _ _ rfl
    refine Stage.bind [.config] (stage_query k _ (hactive _ _ nofun fun h => h.2)) ?_
    rintro _ _ rfl
    exact stage_pure k _ ⟨rfl, rfl⟩
  | hysteria2 =>
    have hclient : member.hasClient = false := by simp [BundleMember.hasClient, hm]
    simp only [provisionChild, issueCalls, hm, hclient, issueHysteria2]
    refine Stage.bind [.checks] hchecks ?_
    rintro _ _ rfl
    refine Stage.bind [.insertPending, .readPending] (stage_createPending k member _) ?_
    rintro _ _ ⟨rfl, rfl⟩
    refine Stage.bind [.markActive] (stage_activateHysteria2Key k hm _) ?_
    rintro _ _ rfl
    refine Stage.bind [.readActive] (stage_query k _ (hactive _ _ nofun fun h => h.2)) ?_
    rintro _ _ rfl
    refine Stage.bind [.config] (stage_query k _ (hactive _ _ nofun fun h => h.2)) ?_
    rintro _ _ rfl
    exact stage_pure k _ ⟨rfl, rfl⟩

/-- The row of a child that is issued to `s` and attached. -/
def attachedRow (s : BundleState) (member : BundleMember) (bundleId : ℕ) : VpnKey :=
  ⟨s.freshKeyId, member, .active, some bundleId⟩

variable (faults) in
/-- **One child**: it is issued and attached, or it fails at a call and leaves at most one row. -/
theorem stage_issueAndAttach (k : ℕ) (member : BundleMember) (bundleId : ℕ) (s : BundleState)
    (hallowed : member.hasClient = true → s.xrayDegraded = false) :
    Stage faults k (issueAndAttach faults k member bundleId) (issueCalls member ++ [.attach])
      (fun id s' => id = s.freshKeyId ∧
        s' = s.child (attachedRow s member bundleId) member.hasClient)
      (Leaves faults k member s) s := by
  refine Stage.bind _ (stage_provisionChild k member s hallowed) ?_
  rintro _ _ ⟨rfl, rfl⟩
  have hattach : (s.child (issuedRow s member .active) member.hasClient).attachKeyToBundle
      s.freshKeyId bundleId = s.child (attachedRow s member bundleId) member.hasClient := by
    have hid : (issuedRow s member .active).id = s.freshKeyId := rfl
    rw [BundleState.attachKeyToBundle, BundleState.updateKey_child hid s.unused_freshKeyId] <;> rfl
  refine Stage.bind [.attach] (stage_call k _ _ fun fault hfault => ?_) ?_
  · rw [hattach]
    split_ifs
    · exact leaves_active _ _ hfault rfl rfl (degrades_of_ne nofun) fun h => h.2
    · exact leaves_active _ _ hfault rfl rfl (degrades_of_ne nofun) fun h => h.2
  · rintro _ _ rfl
    exact stage_pure k _ ⟨rfl, hattach⟩

end Faulty

end VpnBot.Bundles
