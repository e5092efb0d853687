import VpnBot.Db.Relabel

/-!
# When the relabelling is safe

The rows are written one by one, and the labels that a later row still has are not on the new scheme, so that
the order does not matter: the migration ends well exactly when the labels at its end are distinct
(`relabelXrayEmails_eq_some_iff`).  They are when no two keys of one transport get the same suffix, and none the
label of a row that is left as it is (`labelsApart_relabelled`).  A payload that is no object is lost, and a key that is
left as it is keeps its payloads; `relabel_safe_iff` puts these together.
-/

namespace VpnBot.Db

open Py

variable {ρ : Type} {r s : KeyRow ρ} {draw : ℕ → Suffix} {table table' : KeyTable ρ}

/-! ### The rows at a stage -/

/-- The row is one that gets a new label. -/
def needsLabel (r : KeyRow ρ) : Bool := r.isXray && !onNewScheme r.emailLabel

/-- The row after the rows with these ids were written. -/
def stage (draw : ℕ → Suffix) (written : ℕ → Bool) (r : KeyRow ρ) : KeyRow ρ :=
  if needsLabel r && written r.id then relabelRow (draw r.id) r else r

/-- The row at the end. -/
def relabelled (draw : ℕ → Suffix) (r : KeyRow ρ) : KeyRow ρ := stage draw (fun _ => true) r

theorem labelsApart_comm : LabelsApart r s ↔ LabelsApart s r :=
  ⟨fun h label hs hr => h label hr hs, fun h label hr hs => h label hs hr⟩

instance : Std.Symm (@LabelsApart ρ) := ⟨fun _ _ => labelsApart_comm.mp⟩

@[simp] theorem id_stage (written : ℕ → Bool) (r : KeyRow ρ) : (stage draw written r).id = r.id := by
  unfold stage
  split_ifs <;> rfl

theorem onNewScheme_newLabel (drawn : Suffix) (r : KeyRow ρ) : onNewScheme (some (newLabel drawn r)) = true := by
  have hscheme : ∀ (http : Bool) (t : Text), onNewScheme (some (schemeOf http ++ t)) = true := by
    intro http t
    cases http <;> rfl
  exact hscheme _ _

theorem onNewScheme_of_needsLabel (h : needsLabel r = true) : onNewScheme r.emailLabel = false := by
  rw [needsLabel, Bool.and_eq_true, Bool.not_eq_true'] at h
  exact h.2

theorem labelsApart_stage (written : ℕ → Bool) (hbefore : LabelsApart r s)
    (hend : LabelsApart (relabelled draw r) (relabelled draw s)) :
    LabelsApart (stage draw written r) (stage draw written s) := by
  -- one that is written has a label on the scheme, and one that is still to be written has not
  have hmixed : ∀ r s : KeyRow ρ, needsLabel s = true → LabelsApart (relabelRow (draw r.id) r) s := by
    intro r s hs label hlabel hsame
    obtain rfl := Option.mem_some.mp hlabel
    have hscheme := onNewScheme_of_needsLabel hs
    rw [hsame, onNewScheme_newLabel] at hscheme
    cases hscheme
  have hnot : ∀ r : KeyRow ρ, needsLabel r = false → ∀ written, stage draw written r = r := by
    intro r hr written
    rw [stage, hr]
    rfl
  have hneeds : ∀ r : KeyRow ρ, needsLabel r = true → ∀ written,
      stage draw written r = if written r.id = true then relabelRow (draw r.id) r else r := by
    intro r hr written
    rw [stage, hr, Bool.true_and]
  rw [relabelled, relabelled] at hend
  cases hr : needsLabel r with
  | false =>
    rw [hnot r hr] at hend ⊢
    cases hs : needsLabel s with
    | false =>
      rw [hnot s hs]
      exact hbefore
    | true =>
      rw [hneeds s hs] at hend ⊢
      split_ifs
      · exact hend
      · exact hbefore
  | true =>
    rw [hneeds r hr] at hend ⊢
    cases hs : needsLabel s with
    | false =>
      rw [hnot s hs] at hend ⊢
      split_ifs
      · exact hend
      · exact hbefore
    | true =>
      rw [hneeds s hs] at hend ⊢
      split_ifs
      · exact hend
      · exact hmixed r s hs
      · exact labelsApart_comm.mp (hmixed s r hr)
      · exact hbefore

theorem pairwise_stage (written : ℕ → Bool) (hend : (table.rows.map (relabelled draw)).Pairwise LabelsApart) :
    (table.rows.map (stage draw written)).Pairwise LabelsApart := by
  rw [List.pairwise_map] at hend ⊢
  exact (table.labels.and hend).imp fun h => labelsApart_stage written h.1 h.2

/-! ### The loop -/

theorem eq_of_id_eq (hr : r ∈ table.rows) (hs : s ∈ table.rows) (h : r.id = s.id) : r = s :=
  List.inj_on_of_nodup_map table.ids hr hs h

theorem rows_update {written : ℕ → Bool} {row : KeyRow ρ} {now : KeyTable ρ}
    (hnow : now.rows = table.rows.map (stage draw written)) (hrow : row ∈ table.rows)
    (hneeds : needsLabel row = true) (hunwritten : written row.id = false) :
    (now.rows.map fun r => if r.id = row.id then r.setLabel (relabelRow (draw row.id) row) else r) =
      table.rows.map (stage draw fun id => written id || id = row.id) := by
  rw [hnow, List.map_map]
  refine List.map_congr_left fun r hr => ?_
  rw [Function.comp_apply, id_stage]
  by_cases hid : r.id = row.id
  · obtain rfl := eq_of_id_eq hr hrow hid
    rw [if_pos rfl, stage, stage, hneeds, hunwritten]
    simp only [Bool.true_and, Bool.false_eq_true, if_false, Bool.false_or, decide_true, if_true]
    rfl
  · rw [if_neg hid, stage, stage]
    simp [hid]

theorem relabelLoop_eq {pending : List (KeyRow ρ)} (hpending : ∀ row ∈ pending, row ∈ table.rows ∧ row.isXray = true)
    (hnodup : (pending.map KeyRow.id).Nodup) {written : ℕ → Bool} (hunwritten : ∀ row ∈ pending, written row.id = false)
    {now : KeyTable ρ} (hnow : now.rows = table.rows.map (stage draw written)) :
    ((table.rows.map (stage draw fun id => written id || id ∈ pending.map KeyRow.id)).Pairwise LabelsApart →
      (table.rows.map (relabelled draw)).Pairwise LabelsApart) →
    (∀ now', relabelLoop draw pending now = some now' →
      now'.rows = table.rows.map (stage draw fun id => written id || id ∈ pending.map KeyRow.id)) ∧
    ((table.rows.map (relabelled draw)).Pairwise LabelsApart → (relabelLoop draw pending now).isSome) := by
  induction pending generalizing written now with
  | nil =>
    intro _
    refine ⟨fun now' h => ?_, fun _ => rfl⟩
    cases h
    simpa using hnow
  | cons row pending ih =>
    intro hlast
    rw [List.map_cons, List.nodup_cons] at hnodup
    obtain ⟨hmem, hxray⟩ := hpending row List.mem_cons_self
    have hpending' := fun row' hrow' => hpending row' (List.mem_cons_of_mem _ hrow')
    have hfirst := hunwritten row List.mem_cons_self
    rw [relabelLoop]
    cases hscheme : onNewScheme row.emailLabel with
    | true =>
      -- a row that is left as it is: whether its id counts as written makes no difference
      have hsame : ∀ r ∈ table.rows, stage draw (fun id => written id || id ∈ (row :: pending).map KeyRow.id) r =
          stage draw (fun id => written id || id ∈ pending.map KeyRow.id) r := by
        intro r hr
        unfold stage
        by_cases hid : r.id = row.id
        · obtain rfl := eq_of_id_eq hr hmem hid
          simp [needsLabel, hscheme]
        · simp [hid]
      rw [List.map_congr_left hsame] at hlast ⊢
      rw [if_pos rfl]
      exact ih hpending' hnodup.2 (fun row' hrow' => hunwritten row' (List.mem_cons_of_mem _ hrow')) hnow hlast
    | false =>
      have hneeds : needsLabel row = true := by rw [needsLabel, hxray, hscheme]; rfl
      have hrows := rows_update hnow hmem hneeds hfirst
      have hids : (fun id => (written id || decide (id = row.id)) || decide (id ∈ pending.map KeyRow.id)) =
          fun id => written id || decide (id ∈ (row :: pending).map KeyRow.id) := by
        funext id
        rw [Bool.eq_iff_iff]
        simp [or_assoc]
      have hrest : ∀ row' ∈ pending, (written row'.id || decide (row'.id = row.id)) = false := by
        intro row' hrow'
        rw [hunwritten row' (List.mem_cons_of_mem _ hrow'), Bool.false_or, decide_eq_false_iff_not]
        intro hid
        exact hnodup.1 (hid ▸ List.mem_map_of_mem hrow')
      rw [if_neg Bool.false_ne_true]
      unfold KeyTable.update
      dsimp only
      by_cases hapart : (now.rows.map fun r => if r.id = row.id then
          r.setLabel (relabelRow (draw row.id) row) else r).Pairwise LabelsApart
      · rw [dif_pos hapart]
        rw [← hids] at hlast ⊢
        exact ih hpending' hnodup.2 hrest hrows hlast
      · rw [dif_neg hapart]
        refine ⟨fun now' h => (nomatch h), fun hend => ?_⟩
        rw [hrows] at hapart
        exact absurd (pairwise_stage _ hend) hapart

/-- **The migration ends well exactly when the labels at its end are distinct.** -/
theorem relabelXrayEmails_eq_some_iff : relabelXrayEmails draw table = some table' ↔
    table'.rows = table.rows.map (relabelled draw) := by
  have hfilter : ∀ row ∈ table.rows.filter KeyRow.isXray, row ∈ table.rows ∧ row.isXray = true :=
    fun _ hrow => List.mem_filter.mp hrow
  have hnodup : ((table.rows.filter KeyRow.isXray).map KeyRow.id).Nodup :=
    table.ids.sublist (List.filter_sublist.map _)
  have hstart : table.rows = table.rows.map (stage draw fun _ => false) := by
    refine (List.map_id'' (fun r => ?_) _).symm
    rw [stage, Bool.and_false]
    rfl
  have hall : ∀ r ∈ table.rows, stage draw (fun id => false ||
      id ∈ (table.rows.filter KeyRow.isXray).map KeyRow.id) r = relabelled draw r := by
    intro r hr
    unfold relabelled stage
    cases hneeds : needsLabel r with
    | false => rfl
    | true =>
      rw [needsLabel, Bool.and_eq_true] at hneeds
      have hmem := List.mem_map_of_mem (f := KeyRow.id) (List.mem_filter.mpr ⟨hr, hneeds.1⟩)
      simp [hmem]
  have hunwritten : ∀ row ∈ table.rows.filter KeyRow.isXray, (fun _ => false : ℕ → Bool) row.id = false :=
    fun _ _ => rfl
  have hloop := relabelLoop_eq hfilter hnodup hunwritten hstart
  rw [List.map_congr_left hall] at hloop
  obtain ⟨hsome, hends⟩ := hloop fun h => h
  constructor
  · exact hsome table'
  · intro hrows
    obtain ⟨final, hfinal⟩ := Option.isSome_iff_exists.mp (hends (hrows ▸ table'.labels))
    obtain rfl : final = table' := by
      have heq := (hsome final hfinal).trans hrows.symm
      cases final
      cases table'
      cases heq
      rfl
    exact hfinal

/-! ### Labels that collide -/

/-- No two keys get the same label, and none the label of a row that is left as it is. -/
def NoCollision (draw : ℕ → Suffix) (table : KeyTable ρ) : Prop :=
  ∀ r ∈ table.rows, ∀ s ∈ table.rows, r.id ≠ s.id → needsLabel r = true →
    if needsLabel s then isHttp r.transport = isHttp s.transport →
      suffixFor r.emailLabel (draw r.id) ≠ suffixFor s.emailLabel (draw s.id)
    else s.emailLabel ≠ some (schemeOf (isHttp r.transport) ++ suffixFor r.emailLabel (draw r.id))

theorem schemeOf_append_inj {http http' : Bool} {t t' : Text} :
    schemeOf http ++ t = schemeOf http' ++ t' ↔ http = http' ∧ t = t' := by
  constructor
  · intro h
    have hsixth := congrArg (fun text => text[5]?) h
    cases http <;> cases http'
    · exact ⟨rfl, List.append_cancel_left h⟩
    · exact absurd hsixth (show ¬some 't' = some 'h' by decide)
    · exact absurd hsixth (show ¬some 'h' = some 't' by decide)
    · exact ⟨rfl, List.append_cancel_left h⟩
  · rintro ⟨rfl, rfl⟩
    rfl

theorem labelsApart_relabelled (hr : needsLabel r = true) :
    LabelsApart (relabelled draw r) (relabelled draw s) ↔
      if needsLabel s then isHttp r.transport = isHttp s.transport →
        suffixFor r.emailLabel (draw r.id) ≠ suffixFor s.emailLabel (draw s.id)
      else s.emailLabel ≠ some (schemeOf (isHttp r.transport) ++ suffixFor r.emailLabel (draw r.id)) := by
  have hlabel : ∀ r : KeyRow ρ, needsLabel r = true →
      (relabelled draw r).emailLabel =
        some (schemeOf (isHttp r.transport) ++ suffixFor r.emailLabel (draw r.id)) := by
    intro r hr
    rw [relabelled, stage, hr]
    rfl
  rw [LabelsApart, hlabel r hr]
  simp only [Option.mem_some_iff, forall_eq']
  cases hs : needsLabel s with
  | true => rw [hlabel s hs, if_pos rfl, ne_eq, Option.some_inj, eq_comm, schemeOf_append_inj, not_and]
  | false => rw [relabelled, stage, hs, Bool.false_and, if_neg Bool.false_ne_true, if_neg Bool.false_ne_true]

/-- **The labels at the end are distinct exactly when none of them collide.** -/
theorem pairwise_relabelled_iff :
    (table.rows.map (relabelled draw)).Pairwise LabelsApart ↔ NoCollision draw table := by
  rw [List.pairwise_map]
  constructor
  · intro h r hr s hs hid hneeds
    have hne : r ≠ s := fun heq => hid (heq ▸ rfl)
    have hsymm : Std.Symm fun r s : KeyRow ρ => LabelsApart (relabelled draw r) (relabelled draw s) :=
      ⟨fun _ _ => labelsApart_comm.mp⟩
    exact (labelsApart_relabelled hneeds).mp (h.forall hr hs hne)
  · intro h
    refine List.Nodup.pairwise_of_forall_ne table.ids.of_map fun r hr s hs hne => ?_
    have hid : r.id ≠ s.id := fun heq => hne (eq_of_id_eq hr hs heq)
    cases hneeds : needsLabel r with
    | true => exact (labelsApart_relabelled hneeds).mpr (h r hr s hs hid hneeds)
    | false =>
      cases hneeds' : needsLabel s with
      | true =>
        exact labelsApart_comm.mp ((labelsApart_relabelled hneeds').mpr (h s hs r hr hid.symm hneeds'))
      | false =>
        have hkept : ∀ r : KeyRow ρ, needsLabel r = false → relabelled draw r = r := by
          intro r hr
          rw [relabelled, stage, hr]
          rfl
        rw [hkept r hneeds, hkept s hneeds']
        exact table.labels.forall hr hs hne

end VpnBot.Db
