import VpnBot.Bundles.Rollback

/-!
# When the creation of a bundle is atomic

`createBundle` either returns with every member attached or raises, and then `NothingLeft` should
hold.  `ends_issueChildren` follows the loop: a failing member leaves what `Leaves` says and the
rollback takes back the members before it.  `createIsAtomic_iff` is the result for the whole run.
-/

namespace VpnBot.Bundles

open Py Sys

section Faulty

variable {faults : Faults}

/-! ### The loop over the members -/

variable (faults) in
/-- When the creation fails for a member its first failing call is harmless and the children
before it, newest first in `older`, and the bundle row can be deleted; when it fails for no member
the last query does not fail.  Where the client of the member cannot be taken back XRAY is degraded. -/
def HarmlessIssue (older : List BundleMember) : List BundleMember → Prop
  | [] => faults .finalRead = none
  | member :: members =>
    match childFault faults older.length member with
    | none => HarmlessIssue (member :: older) members
    | some c =>
      HarmlessCall faults older.length member c ∧
        UndoSucceeds faults (degrades faults older.length member c) older ∧ TakesEffect faults .bundleDelete

theorem ends_issueChildren (s : BundleState) (label : ℕ) (kind : KeyBundleKind)
    (older members : List BundleMember)
    (hallowed : ∀ member, member ∈ older ∨ member ∈ members → member.hasClient = true → s.xrayDegraded = false) :
    Program.Ends
      (issueChildren faults s.freshBundleId
        (children (s.insertBundle label kind) s.freshBundleId older).reverse members)
      (fun _ s' => s' = grown (s.insertBundle label kind) s.freshBundleId (members.reverse ++ older) ∧
        (HarmlessIssue faults older members ↔ faults .finalRead = none))
      (fun _ s' => RollbackBackendSucceeds faults →
        (NothingLeft s s' ↔ HarmlessIssue faults older members))
      (grown (s.insertBundle label kind) s.freshBundleId older) := by
  induction members generalizing older with
  | nil => exact ⟨rfl, Iff.rfl⟩
  | cons member members ih =>
    have hissue := stage_issueAndAttach faults older.length member s.freshBundleId
      (grown (s.insertBundle label kind) s.freshBundleId older) (by
        rw [grown_xrayDegraded]
        exact hallowed member (Or.inr List.mem_cons_self))
    rw [issueChildren, List.length_reverse, length_children, Program.ends_bind, ends_tryException]
    refine Program.Ends.mono hissue ?_ ?_
    · rintro _ _ ⟨hnone, rfl, rfl⟩
      have hnone : childFault faults older.length member = none := hnone
      have hnext := ih (member :: older) fun m hm => hallowed m (by
        rw [List.mem_cons] at hm ⊢
        tauto)
      rw [children, List.reverse_cons] at hnext
      simp only [HarmlessIssue, hnone]
      refine hnext.mono ?_ fun _ _ h => h
      rintro _ _ ⟨hs, hread⟩
      exact ⟨by rw [hs, List.reverse_cons, List.append_assoc]; rfl, hread⟩
    · rintro e s₁ ⟨c, hc, hleaves⟩
      have hc : childFault faults older.length member = some c := hc
      simp only [HarmlessIssue, hc]
      unfold Leaves at hleaves
      split_ifs at hleaves ⊢ with hcancelled
      · -- a cancellation passes the handler, and the bundle row stays
        refine fun _ => iff_of_false (not_nothingLeft ?_) fun h => hleaves.1 h.1
        rw [hleaves.2, grown_bundles]
        simp [BundleState.insertBundle]
      · obtain ⟨residue, rfl, hbeside, hharm, hdegraded⟩ := hleaves
        rw [Program.ends_bind]
        by_cases hbackend : RollbackBackendSucceeds faults
        · rw [← hharm, ← hdegraded]
          exact (ends_rollbackPartialBundle hbackend s label kind older hbeside
            (fun m hm => hallowed m (Or.inl hm)) Iff.rfl).mono (fun _ _ h _ => h) fun _ _ h _ => h
        · exact Program.ends_of_forall (fun _ _ h => absurd h hbackend) fun _ _ h => absurd h hbackend

/-! ### The whole creation -/

/-- The bundle `id` is active, and exactly the members are attached to it, each with one live key. -/
structure Complete (s : BundleState) (kind : KeyBundleKind) (members : List BundleMember) (id : ℕ)
    (s' : BundleState) : Prop where
  bundle : ∃ label, s'.bundles = s.bundles ++ [⟨id, label, kind, .active⟩]
  attached : (s'.keys.filter fun key => key.bundleId = some id).map VpnKey.member = members
  live : ∀ key ∈ s'.keys, key.bundleId = some id →
    key.status = .active ∧ (key.member.hasClient → key.id ∈ s'.clients)

theorem grown_attached (s : BundleState) (bundleId : ℕ) (h : ∀ key ∈ s.keys, key.bundleId ≠ some bundleId)
    (members : List BundleMember) :
    ((grown s bundleId members).keys.filter fun key => key.bundleId = some bundleId).map
      VpnKey.member = members.reverse := by
  induction members with
  | nil => simpa [grown] using h
  | cons member older ih =>
    rw [grown, BundleState.child_keys, List.filter_append, List.map_append, ih, List.reverse_cons]
    simp [attachedRow]

theorem grown_live (s : BundleState) (bundleId : ℕ) (h : ∀ key ∈ s.keys, key.bundleId ≠ some bundleId)
    (members : List BundleMember) :
    ∀ key ∈ (grown s bundleId members).keys, key.bundleId = some bundleId →
      key.status = .active ∧ (key.member.hasClient → key.id ∈ (grown s bundleId members).clients) := by
  induction members with
  | nil => exact fun key hkey hb => absurd hb (h key hkey)
  | cons member older ih =>
    intro key hkey hb
    rcases List.mem_append.1 hkey with hold | hnew
    · obtain ⟨hactive, hclient⟩ := ih key hold hb
      refine ⟨hactive, fun hc => ?_⟩
      have hmem := hclient hc
      cases hlive : member.hasClient <;> simp [grown, BundleState.child, hlive, hmem]
    · rw [List.mem_singleton.1 hnew]
      refine ⟨rfl, fun hc => ?_⟩
      change member.hasClient = true at hc
      simp [grown, BundleState.child, hc]

theorem complete_grown (s : BundleState) (label : ℕ) (kind : KeyBundleKind)
    (members : List BundleMember) :
    Complete s kind members s.freshBundleId
      (grown (s.insertBundle label kind) s.freshBundleId members.reverse) := by
  have hold : ∀ key ∈ (s.insertBundle label kind).keys, key.bundleId ≠ some s.freshBundleId :=
    fun key hkey => fresh_bundleId (s := s) hkey
  refine ⟨⟨label, grown_bundles _ _ _⟩, ?_, grown_live _ _ hold _⟩
  rw [grown_attached _ _ hold, List.reverse_reverse]

variable (faults) in
/-- The creation leaves nothing when it raises and the backend calls of the rollback succeed, and it
is complete when it returns. -/
def CreateIsAtomic (kind : KeyBundleKind) (labels : List ℕ) (members : List BundleMember)
    (s : BundleState) : Prop :=
  Program.Ends (createBundle faults kind labels members) (fun id s' => Complete s kind members id s')
    (fun _ s' => RollbackBackendSucceeds faults → NothingLeft s s') s

def LabelFree (labels : List ℕ) (s : BundleState) : Prop :=
  ∃ label ∈ labels, ∀ bundle ∈ s.bundles, bundle.label ≠ label

/-- A key of XRAY may be issued. -/
def XrayAllowed (members : List BundleMember) (s : BundleState) : Prop :=
  ∀ member ∈ members, member.hasClient = true → s.xrayDegraded = false

variable (faults) in
/-- What may fail: the checks; or, when there are members and a label is free, the insertion without
effect; or the calls for the members as `HarmlessIssue` says, when the bundle row has been inserted
and read back. -/
def HarmlessFaults (labels : List ℕ) (members : List BundleMember) (s : BundleState) : Prop :=
  faults .prechecks = none → members ≠ [] → XrayAllowed members s → LabelFree labels s →
    ¬ TakesEffect faults .bundleInsert ∨
      faults .bundleInsert = none ∧ faults .bundleRead = none ∧ HarmlessIssue faults [] members

theorem labelFree_cons_of_taken {label : ℕ} {labels : List ℕ} {s : BundleState}
    (h : ∃ bundle ∈ s.bundles, bundle.label = label) :
    LabelFree (label :: labels) s ↔ LabelFree labels s := by
  obtain ⟨bundle, hbundle, hl⟩ := h
  refine ⟨?_, fun ⟨l, hmem, hfree⟩ => ⟨l, List.mem_cons_of_mem _ hmem, hfree⟩⟩
  rintro ⟨l, hmem, hfree⟩
  rcases List.mem_cons.1 hmem with rfl | hmem
  · exact absurd hl (hfree bundle hbundle)
  · exact ⟨l, hmem, hfree⟩

theorem ends_createBundleRow (kind : KeyBundleKind) (labels : List ℕ) (s : BundleState) (H : Prop) :
    Program.Ends (createBundleRow faults kind labels)
      (fun id s' => (∃ label, s' = s.insertBundle label kind) ∧ id = s.freshBundleId ∧
        LabelFree labels s ∧ faults .bundleInsert = none ∧ faults .bundleRead = none)
      (fun _ s' => NothingLeft s s' ↔ (LabelFree labels s → ¬ TakesEffect faults .bundleInsert ∨
        faults .bundleInsert = none ∧ faults .bundleRead = none ∧ H)) s := by
  have hsame : NothingLeft s s := ⟨rfl, rfl, fun key hkey => Or.inl hkey⟩
  induction labels with
  | nil =>
    refine iff_of_true hsame ?_
    rintro ⟨label, hlabel, -⟩
    cases hlabel
  | cons label labels ih =>
    rw [createBundleRow, Program.ends_bind, Program.ends_get]
    by_cases htaken : ∃ bundle ∈ s.bundles, bundle.label = label
    · have hany : s.bundles.any (fun bundle => bundle.label = label) = true := by simpa using htaken
      rw [if_pos hany, labelFree_cons_of_taken htaken]
      exact ih
    · have hany : ¬ s.bundles.any (fun bundle => bundle.label = label) = true := by
        simpa using htaken
      have hfree : LabelFree (label :: labels) s :=
        ⟨label, List.mem_cons_self, fun bundle hb hl => htaken ⟨bundle, hb, hl⟩⟩
      have hleft : ¬ NothingLeft s (s.insertBundle label kind) :=
        not_nothingLeft (by simp [BundleState.insertBundle])
      rw [if_neg hany, Program.ends_bind, ends_call]
      cases hinsert : faults .bundleInsert with
      | none =>
        rw [Program.ends_bind, ends_query]
        cases hread : faults .bundleRead with
        | none => exact ⟨⟨label, rfl⟩, rfl, hfree, rfl, rfl⟩
        | some fault => exact iff_of_false hleft fun h => by simpa [TakesEffect, hinsert] using h hfree
      | some fault =>
        have heffect := takesEffect_iff hinsert
        obtain ⟨call, cancelled⟩ := fault
        cases call with
        | before => exact iff_of_true hsame fun _ => Or.inl fun h => absurd (heffect.1 h) (by simp)
        | after => exact iff_of_false hleft fun h => by simpa [heffect] using h hfree

theorem ends_requireAllowed {members : List BundleMember} {s : BundleState}
    {P : Unit → BundleState → Prop} {Q : BundleError → BundleState → Prop}
    (hP : XrayAllowed members s → P () s) (hQ : ¬ XrayAllowed members s → Q .degraded s) :
    Program.Ends (requireAllowed members) P Q s := by
  unfold requireAllowed
  split_ifs with hany
  · rw [ends_requireXrayAllowed]
    split_ifs with hdegraded
    · refine hQ fun hall => ?_
      obtain ⟨member, hmem, hclient⟩ := List.any_eq_true.1 hany
      rw [hall member hmem hclient] at hdegraded
      cases hdegraded
    · exact hP fun _ _ _ => Bool.eq_false_iff.2 hdegraded
  · exact hP fun member hmem hclient => absurd (List.any_eq_true.2 ⟨member, hmem, hclient⟩) hany

/-- **Atomicity**: a creation is atomic just when the failing calls are harmless. -/
theorem createIsAtomic_iff (faults : Faults) (kind : KeyBundleKind) (labels : List ℕ)
    (members : List BundleMember) (s : BundleState) :
    CreateIsAtomic faults kind labels members s ↔
      (RollbackBackendSucceeds faults → HarmlessFaults faults labels members s) := by
  have hsame : NothingLeft s s := ⟨rfl, rfl, fun key hkey => Or.inl hkey⟩
  refine Program.Ends.iff_of ?_
  rw [createBundle, Program.ends_bind, ends_query]
  cases hchecks : faults .prechecks with
  | some fault =>
    refine iff_of_true (fun _ => hsame) fun _ h => ?_
    cases hchecks.symm.trans h
  | none =>
    cases members with
    | nil => exact iff_of_true (fun _ => hsame) fun _ _ hne => absurd rfl hne
    | cons member members =>
      dsimp only
      rw [List.isEmpty_cons, if_neg Bool.false_ne_true, Program.ends_bind]
      refine ends_requireAllowed (fun hallowed => ?_) fun hnot =>
        iff_of_true (fun _ => hsame) fun _ _ _ hallowed => absurd hallowed hnot
      have hharm : HarmlessFaults faults labels (member :: members) s ↔ (LabelFree labels s →
          ¬ TakesEffect faults .bundleInsert ∨ faults .bundleInsert = none ∧
            faults .bundleRead = none ∧ HarmlessIssue faults [] (member :: members)) :=
        ⟨fun h => h hchecks (List.cons_ne_nil _ _) hallowed, fun h _ _ _ => h⟩
      rw [Program.ends_bind]
      refine (ends_createBundleRow kind labels s
        (HarmlessIssue faults [] (member :: members))).mono ?_ fun _ s₁ h => ?_
      · rintro _ _ ⟨⟨label, rfl⟩, rfl, hfree, hinsert, hread⟩
        have hissue : HarmlessFaults faults labels (member :: members) s ↔
            HarmlessIssue faults [] (member :: members) := by
          rw [hharm, hinsert, hread]
          simp [hfree, TakesEffect, hinsert]
        rw [Program.ends_bind]
        refine (ends_issueChildren s label kind [] (member :: members) fun m hm =>
          hallowed m (hm.resolve_left List.not_mem_nil)).mono ?_ fun _ s₂ h => ?_
        · rintro _ _ ⟨rfl, hfinal⟩
          have hcomplete := complete_grown s label kind (member :: members)
          have hleft : ¬ NothingLeft s (grown (s.insertBundle label kind) s.freshBundleId
              (member :: members).reverse) := by
            refine not_nothingLeft ?_
            rw [grown_bundles]
            simp [BundleState.insertBundle]
          rw [List.append_nil, Program.ends_bind, ends_query, hissue, hfinal]
          cases hfault : faults .finalRead with
          | none => exact ⟨hcomplete, fun _ => rfl⟩
          | some fault => exact forall_congr' fun _ => iff_of_false hleft (Option.some_ne_none fault)
        · rw [hissue]
          exact forall_congr' h
      · rw [hharm]
        exact forall_congr' fun _ => h

/-- Only the first child cannot be attached. -/
def attachFails : Faults := fun site => if site = .child 0 .attach then some ⟨.before, false⟩ else none

/-- The first key of a basic bundle cannot be attached: it stays active, with its client. -/
theorem not_createIsAtomic_attachFails :
    ¬ CreateIsAtomic attachFails .basic [0] (bundleComposition .basic []) ⟨[], [], [], false⟩ := by
  intro h
  have hrun : createBundle attachFails .basic [0] (bundleComposition .basic []) ⟨[], [], [], false⟩ =
      .error (.failed (.child 0 .attach))
        ⟨[⟨1, ⟨.xray, .tcp, .base, none⟩, .active, none⟩], [], [1], false⟩ := rfl
  have hbackend : RollbackBackendSucceeds attachFails := fun _ => rfl
  have hleft := (Program.ends_iff.1 h).2 _ _ hrun hbackend
  exact absurd hleft.clients nofun

end Faulty

end VpnBot.Bundles
