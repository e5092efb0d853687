import VpnBot.Warp.Feeds

/-!
# Taking ranges out of the manual rows

`_manual_rows_without` of `src/services/warp_split_feeds.py`: a manual row inside a range is dropped, a
row that contains one is replaced by what is left of it, and a row outside all ranges stays.
`takesOut_manualRowsWithout` and `TakesOut.textCover` say that the rows to drop and the rows to add take
exactly the addresses of the ranges out of the manual set.
-/

namespace VpnBot.Warp

open Py Py.Network Sys FeedTables

/-! ### Reading a list of texts -/

theorem exists_of_mem_mapM {α β : Type} {f : α → Option β} {l : List α} {m : List β} {b : β}
    (h : l.mapM f = some m) (hb : b ∈ m) : ∃ a ∈ l, f a = some b := by
  induction l generalizing m with
  | nil =>
    cases h
    cases hb
  | cons a l ih =>
    rw [List.mapM_cons] at h
    simp only [Option.bind_eq_bind, Option.bind_eq_some_iff] at h
    obtain ⟨c, hc, rest, hrest, heq⟩ := h
    cases heq
    rcases List.mem_cons.mp hb with rfl | hb
    · exact ⟨a, List.mem_cons_self, hc⟩
    · obtain ⟨a', ha', hfa⟩ := ih hrest hb
      exact ⟨a', List.mem_cons_of_mem _ ha', hfa⟩

theorem isSome_mapM {α β : Type} {f : α → Option β} {l : List α} :
    (l.mapM f).isSome ↔ ∀ a ∈ l, (f a).isSome := by
  induction l with
  | nil => simp
  | cons a l ih =>
    rw [List.mapM_cons, List.forall_mem_cons, ← ih]
    cases f a with
    | none => simp
    | some b => cases h : l.mapM f <;> simp

/-! ### Texts and networks -/

theorem cover_toNetworks (l : List Text) : cover (toNetworks l) = IPv4.textCover l := by
  ext a
  simp only [mem_cover, toNetworks, List.mem_filterMap, IPv4.textCover, Set.mem_ofPred_eq]
  constructor
  · rintro ⟨n, ⟨t, ht, hn⟩, ha⟩
    exact ⟨t, ht, n, hn, ha⟩
  · rintro ⟨t, ht, n, hn, ha⟩
    exact ⟨n, ⟨t, ht, hn⟩, ha⟩

theorem mem_textCover {l : List Text} {a : ℕ} :
    a ∈ IPv4.textCover l ↔ ∃ t ∈ l, ∃ n, IPv4.parse false t = some n ∧ a ∈ n.addresses := Iff.rfl

theorem cover_of_mapM_parse {l : List Text} {networks : List IPv4Network}
    (h : l.mapM (IPv4.parse false) = some networks) : cover networks = IPv4.textCover l := by
  induction l generalizing networks with
  | nil =>
    cases h
    ext a
    simp [mem_textCover]
  | cons t l ih =>
    rw [List.mapM_cons] at h
    simp only [Option.bind_eq_bind, Option.bind_eq_some_iff] at h
    obtain ⟨n, hn, networks', hrest, heq⟩ := h
    cases heq
    ext a
    rw [cover_cons, Set.mem_union, ih hrest, mem_textCover, mem_textCover]
    simp [hn]

/-! ### One row -/

theorem cover_withoutTarget (part target : IPv4Network) :
    ∃ l, withoutTarget part target = some l ∧ cover l = part.addresses \ target.addresses := by
  rw [withoutTarget]
  split_ifs with hinside hcontains
  · exact ⟨[], rfl, by rw [cover_nil, Set.sdiff_eq_empty.2 (subnetOf_iff.1 hinside)]⟩
  · exact cover_addressExclude (subnetOf_iff.1 hcontains)
  · have hdisjoint : Disjoint part.addresses target.addresses := by
      rcases nest_or_disjoint part target with h | h | h
      · exact absurd (subnetOf_iff.2 h) hcontains
      · exact absurd (subnetOf_iff.2 h) hinside
      · exact h
    exact ⟨[part], rfl, by rw [cover_cons, cover_nil, Set.union_empty, hdisjoint.sdiff_eq_left]⟩

theorem cover_withoutTargetAll (target : IPv4Network) (parts : List IPv4Network) :
    ∃ l, withoutTargetAll target parts = some l ∧ cover l = cover parts \ target.addresses := by
  induction parts with
  | nil => exact ⟨[], rfl, by simp⟩
  | cons part parts ih =>
    obtain ⟨pieces, hpieces, hcp⟩ := cover_withoutTarget part target
    obtain ⟨rest, hrest, hcr⟩ := ih
    refine ⟨pieces ++ rest, by rw [withoutTargetAll, hpieces, hrest]; rfl, ?_⟩
    rw [cover_append, cover_cons, hcp, hcr, Set.union_sdiff_distrib]

theorem cover_foldlM_withoutTargetAll (targets parts : List IPv4Network) :
    ∃ l, targets.foldlM (fun rest target => withoutTargetAll target rest) parts = some l ∧
      cover l = cover parts \ cover targets := by
  induction targets generalizing parts with
  | nil => exact ⟨parts, rfl, by simp⟩
  | cons target targets ih =>
    obtain ⟨rest, hrest, hcr⟩ := cover_withoutTargetAll target parts
    obtain ⟨l, hl, hcl⟩ := ih rest
    refine ⟨l, by rw [List.foldlM_cons, hrest]; exact hl, ?_⟩
    rw [hcl, hcr, cover_cons, Set.sdiff_sdiff]

/-- A row is dropped exactly when it overlaps a range, and what is added for it is the rest. -/
theorem manualRowWithout_eq {targets : List IPv4Network} {raw : Text} {rows : List Text × List Text}
    (h : manualRowWithout targets raw = some rows) :
    ∃ net, IPv4.parse false raw = some net ∧
      ((rows = ([], []) ∧ Disjoint net.addresses (cover targets)) ∨
        rows.1 = [raw] ∧ IPv4.textCover rows.2 = net.addresses \ cover targets) := by
  unfold manualRowWithout at h
  cases hparse : IPv4.parse false raw with
  | none =>
    rw [hparse] at h
    cases h
  | some net =>
    rw [hparse] at h
    simp only [Option.bind_eq_bind, Option.bind_some] at h
    refine ⟨net, rfl, ?_⟩
    split_ifs at h with hany
    · obtain ⟨rest, hrest, hcover⟩ := cover_foldlM_withoutTargetAll targets [net]
      rw [hrest] at h
      cases h
      refine Or.inr ⟨rfl, ?_⟩
      rw [IPv4.textCover_map_text, sortNetworks, cover_sort, hcover, cover_cons, cover_nil,
        Set.union_empty]
    · cases h
      refine Or.inl ⟨rfl, Set.disjoint_left.2 fun a ha hcover => ?_⟩
      obtain ⟨target, htarget, hat⟩ := hcover
      refine hany (List.any_eq_true.2 ⟨target, htarget, overlaps_iff.2 fun hd => ?_⟩)
      exact Set.disjoint_left.1 hd ha hat

/-! ### All rows -/

/-- What the rows of `_manual_rows_without` do: the dropped ones are manual rows, the others lie outside
the ranges, and what is added covers what the dropped ones covered outside the ranges. -/
structure TakesOut (manual ranges drop add : List Text) : Prop where
  dropped : ∀ p ∈ drop, p ∈ manual
  kept : ∀ p ∈ manual, p ∉ drop → Disjoint (IPv4.textCover [p]) (IPv4.textCover ranges)
  added : IPv4.textCover add = IPv4.textCover drop \ IPv4.textCover ranges

theorem mem_textCover_singleton {p : Text} {a : ℕ} :
    a ∈ IPv4.textCover [p] ↔ ∃ n, IPv4.parse false p = some n ∧ a ∈ n.addresses := by
  simp [mem_textCover]

theorem textCover_append (l m : List Text) :
    IPv4.textCover (l ++ m) = IPv4.textCover l ∪ IPv4.textCover m := by
  ext a
  simp only [Set.mem_union, mem_textCover, List.mem_append, or_and_right, exists_or]

theorem textCover_nil : IPv4.textCover [] = ∅ := by
  ext a
  simp [mem_textCover]

theorem takesOut_of_mapM {targets : List IPv4Network} {ranges manual : List Text}
    {rows : List (List Text × List Text)} (htargets : cover targets = IPv4.textCover ranges)
    (h : manual.mapM (manualRowWithout targets) = some rows) :
    TakesOut manual ranges (rows.flatMap Prod.fst) (rows.flatMap Prod.snd) := by
  induction manual generalizing rows with
  | nil =>
    cases h
    refine ⟨nofun, nofun, ?_⟩
    change IPv4.textCover [] = IPv4.textCover [] \ IPv4.textCover ranges
    rw [textCover_nil, Set.empty_sdiff]
  | cons raw manual ih =>
    rw [List.mapM_cons] at h
    simp only [Option.bind_eq_bind, Option.bind_eq_some_iff] at h
    obtain ⟨row, hrow, rows', hrows, heq⟩ := h
    cases heq
    have htakes := ih hrows
    obtain ⟨net, hparse, hcase⟩ := manualRowWithout_eq hrow
    rw [htargets] at hcase
    have hcover : IPv4.textCover [raw] = net.addresses := by
      ext a
      simp [mem_textCover, hparse]
    rw [List.flatMap_cons, List.flatMap_cons]
    rcases hcase with ⟨rfl, hdisjoint⟩ | ⟨hdrop, hadd⟩
    · refine ⟨fun p hp => List.mem_cons_of_mem _ (htakes.dropped p hp), fun p hp hnot => ?_,
        htakes.added⟩
      rcases List.mem_cons.1 hp with rfl | hp
      · exact hcover ▸ hdisjoint
      · exact htakes.kept p hp hnot
    · rw [hdrop]
      refine ⟨fun p hp => ?_, fun p hp hnot => ?_, ?_⟩
      · rcases List.mem_cons.1 hp with rfl | hp
        · exact List.mem_cons_self
        · exact List.mem_cons_of_mem _ (htakes.dropped p hp)
      · rcases List.mem_cons.1 hp with rfl | hp
        · exact absurd List.mem_cons_self hnot
        · exact htakes.kept p hp fun hdropped => hnot (List.mem_cons_of_mem _ hdropped)
      · rw [textCover_append, textCover_append, hadd, htakes.added, hcover, Set.union_sdiff_distrib]

theorem isSome_manualRowWithout {targets : List IPv4Network} {raw : Text} :
    (manualRowWithout targets raw).isSome ↔ (IPv4.parse false raw).isSome := by
  unfold manualRowWithout
  cases IPv4.parse false raw with
  | none => rfl
  | some net =>
    obtain ⟨rest, hrest, -⟩ := cover_foldlM_withoutTargetAll targets [net]
    simp only [Option.bind_eq_bind, Option.bind_some, hrest]
    split_ifs <;> rfl

theorem isSome_manualRowsWithout {manual ranges : List Text} :
    (manualRowsWithout manual ranges).isSome ↔
      (∀ t ∈ ranges, (IPv4.parse false t).isSome) ∧ ∀ t ∈ manual, (IPv4.parse false t).isSome := by
  rw [← isSome_mapM]
  unfold manualRowsWithout
  cases ranges.mapM (IPv4.parse false) with
  | none => simp
  | some targets =>
    have hrows : (manual.mapM (manualRowWithout targets)).isSome ↔
        ∀ t ∈ manual, (IPv4.parse false t).isSome := by
      rw [isSome_mapM]
      exact forall₂_congr fun _ _ => isSome_manualRowWithout
    rw [← hrows]
    cases h : manual.mapM (manualRowWithout targets) <;> simp [h]

theorem takesOut_manualRowsWithout {manual ranges drop add : List Text}
    (h : manualRowsWithout manual ranges = some (drop, add)) : TakesOut manual ranges drop add := by
  unfold manualRowsWithout at h
  simp only [Option.bind_eq_bind, Option.bind_eq_some_iff] at h
  obtain ⟨targets, htargets, rows, hrows, heq⟩ := h
  cases heq
  exact takesOut_of_mapM (cover_of_mapM_parse htargets) hrows

/-- **What `_manual_rows_without` says takes exactly the ranges out of the manual set.** -/
theorem TakesOut.textCover {manual ranges drop add rows : List Text}
    (htakes : TakesOut manual ranges drop add)
    (hrows : ∀ p, p ∈ rows ↔ p ∈ manual ∧ p ∉ drop ∨ p ∈ add) :
    IPv4.textCover rows = IPv4.textCover manual \ IPv4.textCover ranges := by
  ext a
  constructor
  · rintro ⟨p, hp, n, hn, ha⟩
    rcases (hrows p).1 hp with ⟨hmanual, hnot⟩ | hadd
    · have hap := mem_textCover_singleton.2 ⟨n, hn, ha⟩
      exact ⟨⟨p, hmanual, n, hn, ha⟩, Set.disjoint_left.1 (htakes.kept p hmanual hnot) hap⟩
    · have hcover : a ∈ IPv4.textCover add := ⟨p, hadd, n, hn, ha⟩
      rw [htakes.added] at hcover
      obtain ⟨⟨q, hq, m, hm, haq⟩, hnot⟩ := hcover
      exact ⟨⟨q, htakes.dropped q hq, m, hm, haq⟩, hnot⟩
  · rintro ⟨⟨p, hp, n, hn, ha⟩, hnot⟩
    by_cases hdrop : p ∈ drop
    · have hcover : a ∈ IPv4.textCover add := by
        rw [htakes.added]
        exact ⟨⟨p, hdrop, n, hn, ha⟩, hnot⟩
      obtain ⟨q, hq, m, hm, haq⟩ := hcover
      exact ⟨q, (hrows q).2 (Or.inr hq), m, hm, haq⟩
    · exact ⟨p, (hrows p).2 (Or.inl ⟨hp, hdrop⟩), n, hn, ha⟩

end VpnBot.Warp
