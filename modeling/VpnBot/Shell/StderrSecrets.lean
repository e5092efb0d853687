import VpnBot.Shell.Redact

/-!
# Sensitive values in the text of an error

What comes of the characters of a sensitive value that a command writes to its second stream.  `KeepsSecret` says
that the run is the same for other characters in their place, and that none of them survives.

The values are replaced one after another in what is read of the stream: of each value the occurrences, from the left,
that share no character with one that is replaced already.  Where these cover the characters of all occurrences, also
of those that the limit cuts, and no value is found in the asterisks that stand for another, the secret is kept
(`keepsSecret_of_covered`); for values of at least three characters without white space the first of these is the
condition (`keepsSecret_iff`).
-/

namespace VpnBot.Shell

open Py Covering

variable {values values' : List Text} {stderr stderr' : Stream} {cap : ℕ}

/-! ### The property -/

/-- What is read up to a byte. -/
def readText (data : List UInt8) (n : ℕ) : Text := decodeUtf8 (data.take n)

/-- No value is found where it takes in an asterisk that stands for a value before it. -/
def OutsideStars (values : List Text) (text : Text) : Prop := AllApart id stars values (uncovered text)

/-- **Two commands that differ only in the sensitive values**: however far the streams are read, the values occur at
the same places, and outside of them the characters are the same.  The values of the second are found in no asterisks
that stand for others. -/
structure Alike (values values' : List Text) (data data' : List UInt8) : Prop where
  bytes : data.length = data'.length
  length : ∀ n, (readText data n).length = (readText data' n).length
  occurrences : List.Forall₂ (fun value value' => value.length = value'.length ∧
    ∀ n i, value <+: (readText data n).drop i ↔ value' <+: (readText data' n).drop i) values values'
  outside : ∀ n place, insideValue values (decodeUtf8 data) place = false →
    (readText data n)[place]? = (readText data' n)[place]?
  apart : ∀ n, OutsideStars values' (readText data' n)

/-- **The secret is kept**: the run is the same for other values in the place of the sensitive ones, and no character
of an occurrence survives. -/
structure KeepsSecret (values : List Text) (stderr : Stream) (cap : ℕ) : Prop where
  sameRun : ∀ values' stderr', Alike values values' stderr.data stderr'.data → ∀ returncode stdout,
    runRedacted cap values' (.exited returncode stdout stderr') =
      runRedacted cap values (.exited returncode stdout stderr)
  noPart : ∀ b ∈ tracedStderr stderr values cap, b.2 = false

/-- For each character that is read, whether a value that is replaced covers it. -/
def covers (values : List Text) (text : Text) : List Flag :=
  (coverAll id values (uncovered text)).map Prod.snd

/-- **The condition**: no value is found in the asterisks that stand for another, and every character of an occurrence
that is read is covered. -/
structure Covered (values : List Text) (stderr : Stream) (cap : ℕ) : Prop where
  apart : OutsideStars values (readText stderr.data cap)
  covered : ∀ place, insideValue values (decodeUtf8 stderr.data) place = true →
    (covers values (readText stderr.data cap))[place]? ≠ some .shown

/-! ### The text that is read -/

theorem fst_readStreamLimited (stderr : Stream) (cap : ℕ) :
    decodeUtf8 (readStreamLimited stderr cap).1 = readText stderr.data cap := by
  rw [readStreamLimited_eq]
  rfl

theorem readText_all (data : List UInt8) : readText data data.length = decodeUtf8 data := by
  rw [readText, List.take_length]

theorem stars_disjoint {value : Text} (h : '*' ∉ value) : ∀ c ∈ stars, id c ∉ value := by
  intro c hc
  have hstar : c = '*' := by
    have : stars.all (· = '*') = true := by decide
    exact of_decide_eq_true (List.all_eq_true.1 this c hc)
  rw [hstar]
  exact h

/-- **The first value may have asterisks**; as long as no other one has, none is found in the asterisks. -/
theorem outsideStars_of_tail (h : ∀ value ∈ values.tail, '*' ∉ value) (text : Text) : OutsideStars values text := by
  cases values with
  | nil => trivial
  | cons value values =>
    exact ⟨apart_uncovered _ _ _ _, allApart_of_disjoint (fun value hvalue => stars_disjoint (h value hvalue)) _⟩

theorem redact_eq_collapse {text : Text} (h : OutsideStars values text) :
    redact text values = collapse stars (coverAll id values (uncovered text)) :=
  replaceAll_eq_collapse (by decide) h

theorem snd_uncovered {β : Type} (t : List β) : (uncovered t).map Prod.snd = List.replicate t.length Flag.shown := by
  simp [uncovered, Function.comp_def, List.map_const']

theorem fst_uncovered {α β : Type} (f : β → α) (t : List β) : (uncovered t).map (f ∘ Prod.fst) = t.map f := by
  simp [uncovered, Function.comp_def]

theorem getElem?_coverAll {β : Type} {f : β → Char} {t : List β} {i : ℕ} {p : β × Flag}
    (h : (coverAll f values (uncovered t))[i]? = some p) :
    t[i]? = some p.1 ∧ ((coverAll f values (uncovered t)).map Prod.snd)[i]? = some p.2 := by
  have hletters : (coverAll f values (uncovered t)).map Prod.fst = t := by
    rw [map_fst_coverAll]
    simp [uncovered, Function.comp_def]
  constructor
  · rw [← hletters, List.getElem?_map, h]
    rfl
  · rw [List.getElem?_map, h]
    rfl

theorem length_coverAll {β : Type} (f : β → Char) (values : List Text) (t : List β) :
    (coverAll f values (uncovered t)).length = t.length := by
  rw [← List.length_map (f := Prod.fst), map_fst_coverAll, List.length_map, uncovered, List.length_map]

theorem covers_eq (h : Alike values values' stderr.data stderr'.data) (n : ℕ) :
    covers values (readText stderr.data n) = covers values' (readText stderr'.data n) := by
  have hoccurs : List.Forall₂ (fun value value' => value.length = value'.length ∧
      ∀ i, value <+: (readText stderr.data n).drop i ↔ value' <+: (readText stderr'.data n).drop i) values values' :=
    h.occurrences.imp fun _ _ hvalue => ⟨hvalue.1, fun i => hvalue.2 n i⟩
  refine flags_coverAll hoccurs ?_ ?_ ?_
  · rw [snd_uncovered, snd_uncovered, h.length]
  · rw [fst_uncovered, List.map_id]
  · rw [fst_uncovered, List.map_id]

/-- **The same run** for other sensitive values. -/
theorem runRedacted_eq (hcovered : Covered values stderr cap) (h : Alike values values' stderr.data stderr'.data)
    (returncode : ℤ) (stdout : Stream) :
    runRedacted cap values' (.exited returncode stdout stderr') =
      runRedacted cap values (.exited returncode stdout stderr) := by
  have hcollapse : redact (readText stderr'.data cap) values' = redact (readText stderr.data cap) values := by
    rw [redact_eq_collapse hcovered.apart, redact_eq_collapse (h.apart cap)]
    refine (collapse_congr (List.forall₂_of_length_eq_of_get ?_ fun i hi hi' => ?_)).symm
    · rw [length_coverAll, length_coverAll, h.length]
    · obtain ⟨hletter, hflag⟩ := getElem?_coverAll (List.getElem?_eq_getElem hi)
      obtain ⟨hletter', hflag'⟩ := getElem?_coverAll (List.getElem?_eq_getElem hi')
      have hsame := covers_eq h cap
      rw [covers, covers] at hsame
      refine ⟨Option.some.inj (hflag.symm.trans ((congrArg (·[i]?) hsame).trans hflag')), fun hshown => ?_⟩
      have houtside : insideValue values (decodeUtf8 stderr.data) i = false := by
        by_contra hinside
        refine hcovered.covered i (Bool.eq_true_of_not_eq_false hinside) ?_
        exact hflag.trans (congrArg some hshown)
      exact Option.some.inj (hletter.symm.trans ((h.outside cap i houtside).trans hletter'))
  have htext : stderrOf stderr' values' cap = stderrOf stderr values cap := by
    unfold stderrOf
    rw [readStreamLimited_eq, readStreamLimited_eq, h.bytes]
    exact congrArg (compactText · _ cap) hcollapse
  simp only [runRedacted, htext]

/-! ### The marks -/

/-- A letter that is left is not covered, or it comes from what replaces the others. -/
theorem mem_collapse {β : Type} {new : List β} {t : List (β × Flag)} {b : β} (h : b ∈ collapse new t) :
    b ∈ new ∨ (b, .shown) ∈ t := by
  obtain ⟨p, hp, hb⟩ := List.mem_flatMap.1 h
  obtain ⟨b', flag⟩ := p
  cases flag with
  | shown =>
    obtain rfl : b = b' := List.mem_singleton.1 hb
    exact Or.inr hp
  | head => exact Or.inl hb
  | tail => cases hb

theorem mem_collapse_of_shown {β : Type} {t : List (β × Flag)} {b : β} (h : (b, .shown) ∈ t) (new : List β) :
    b ∈ collapse new t :=
  List.mem_flatMap.2 ⟨(b, .shown), h, List.mem_singleton_self b⟩

theorem mem_of_mem_stripMarked {t : List (Char × Bool)} {b : Char × Bool} (h : b ∈ stripMarked t) : b ∈ t := by
  have hback := (List.dropWhile_suffix _).subset (List.mem_reverse.1 h)
  exact (List.dropWhile_suffix _).subset (List.mem_reverse.1 hback)

theorem mem_unmarked {t : Text} {b : Char × Bool} (h : b ∈ unmarked t) : b.2 = false := by
  obtain ⟨c, -, rfl⟩ := List.mem_map.1 h
  rfl

theorem covers_markedRead (values : List Text) (stderr : Stream) (cap : ℕ) :
    (coverAll Prod.fst values (uncovered (markedRead values stderr cap))).map Prod.snd =
      covers values (readText stderr.data cap) := by
  have hletters : (markedRead values stderr cap).map Prod.fst = readText stderr.data cap := by
    rw [map_fst_markedRead, fst_readStreamLimited]
  have hoccurs : List.Forall₂ (fun value value' => value.length = value'.length ∧
      ∀ i, value <+: (readText stderr.data cap).drop i ↔ value' <+: (readText stderr.data cap).drop i) values values :=
    List.forall₂_same.2 fun _ _ => ⟨rfl, fun _ => Iff.rfl⟩
  refine flags_coverAll hoccurs ?_ ?_ ?_
  · rw [snd_uncovered, snd_uncovered, ← hletters, List.length_map]
  · rw [fst_uncovered, hletters]
  · rw [fst_uncovered, List.map_id]

theorem getElem?_markedRead {i : ℕ} {b : Char × Bool} (h : (markedRead values stderr cap)[i]? = some b) :
    (readText stderr.data cap)[i]? = some b.1 ∧ insideValue values (decodeUtf8 stderr.data) i = b.2 := by
  rw [markedRead, fst_readStreamLimited, List.getElem?_map, List.getElem?_zipIdx, Option.map_map] at h
  obtain ⟨c, hc, rfl⟩ := Option.map_eq_some_iff.1 h
  exact ⟨hc, by simp⟩

theorem tracedRedact_eq_collapse (h : OutsideStars values (readText stderr.data cap)) : tracedRedact stderr values cap =
    collapse (unmarked stars) (coverAll Prod.fst values (uncovered (markedRead values stderr cap))) := by
  refine replaceAll_eq_collapse (by decide) (AllApart.comap (f := id) ?_)
  have hletters : (uncovered (markedRead values stderr cap)).map (Prod.map Prod.fst id) =
      uncovered (readText stderr.data cap) := by
    rw [← fst_readStreamLimited, ← map_fst_markedRead values, uncovered, uncovered, List.map_map, List.map_map]
    rfl
  rw [map_fst_unmarked, hletters]
  exact h

/-- **A mark survives the redaction at a place that is not covered.** -/
theorem marked_mem_tracedRedact_iff (h : OutsideStars values (readText stderr.data cap)) {c : Char} :
    (c, true) ∈ tracedRedact stderr values cap ↔ ∃ place, (readText stderr.data cap)[place]? = some c ∧
      insideValue values (decodeUtf8 stderr.data) place = true ∧
        (covers values (readText stderr.data cap))[place]? = some .shown := by
  rw [tracedRedact_eq_collapse h]
  constructor
  · intro hmem
    rcases mem_collapse hmem with hnew | hshown
    · cases mem_unmarked hnew
    · obtain ⟨i, hi⟩ := List.mem_iff_getElem?.1 hshown
      obtain ⟨hletter, hflag⟩ := getElem?_coverAll hi
      obtain ⟨hread, hinside⟩ := getElem?_markedRead hletter
      rw [covers_markedRead] at hflag
      exact ⟨i, hread, hinside, hflag⟩
  · rintro ⟨i, hread, hinside, hflag⟩
    refine mem_collapse_of_shown (List.mem_iff_getElem?.2 ⟨i, ?_⟩) _
    rw [← covers_markedRead, List.getElem?_map] at hflag
    obtain ⟨⟨b, flag⟩, hp, rfl⟩ := Option.map_eq_some_iff.1 hflag
    obtain ⟨hb, hmark⟩ := getElem?_markedRead (getElem?_coverAll hp).1
    rw [hread] at hb
    obtain ⟨c', mark⟩ := b
    obtain rfl : c = c' := Option.some.inj hb
    obtain rfl : true = mark := hinside.symm.trans hmark
    exact hp

theorem mem_tracedStderr {b : Char × Bool} (h : b ∈ tracedStderr stderr values cap) :
    b.2 = false ∨ b ∈ tracedRedact stderr values cap := by
  have hstripped : b ∈ stripMarked (tracedRedact stderr values cap) ∨ b ∈ unmarked truncationMarker := by
    unfold tracedStderr compactMarked at h
    simp only at h
    split_ifs at h
    · exact Or.inl h
    · exact (List.mem_append.1 h).imp_left List.mem_of_mem_take
  exact hstripped.symm.imp mem_unmarked mem_of_mem_stripMarked

/-- **Where everything is covered the secret is kept.** -/
theorem keepsSecret_of_covered (h : Covered values stderr cap) : KeepsSecret values stderr cap where
  sameRun _ _ halike := runRedacted_eq h halike
  noPart b hb := by
    rcases mem_tracedStderr hb with hfalse | hmem
    · exact hfalse
    · obtain ⟨c, mark⟩ := b
      cases mark with
      | false => rfl
      | true =>
        obtain ⟨place, -, hinside, hshown⟩ := (marked_mem_tracedRedact_iff h.apart).1 hmem
        exact absurd hshown (h.covered place hinside)

/-! ### Values without white space -/

/-- A value of at least three characters, of which none is white space. -/
def Ordinary (value : Text) : Prop := 3 ≤ value.length ∧ ∀ c ∈ value, isSpace c = false

theorem mem_value_of_read {c : Char} {place : ℕ} (hread : (readText stderr.data cap)[place]? = some c)
    (hinside : insideValue values (decodeUtf8 stderr.data) place = true) :
    (∃ value ∈ values, c ∈ value) ∨ c = replacementChar := by
  obtain ⟨k, r, hdecode, hr⟩ := decodeFrom_take none stderr.data cap
  replace hdecode : readText stderr.data cap = (decodeUtf8 stderr.data).take k ++ r := hdecode
  rw [hdecode, List.getElem?_append] at hread
  split_ifs at hread with hlt
  · left
    obtain ⟨value, hvalue, i, hi, hend, hbegins⟩ := insideValue_iff.1 hinside
    refine ⟨value, hvalue, List.mem_iff_getElem?.2 ⟨place - i, ?_⟩⟩
    have hdrop : ((decodeUtf8 stderr.data).drop i)[place - i]? = some c := by
      rw [List.getElem?_drop, Nat.add_sub_cancel' hi]
      rw [List.length_take] at hlt
      rwa [List.getElem?_take_of_lt (by omega)] at hread
    obtain ⟨rest, hrest⟩ := hbegins
    rwa [← hrest, List.getElem?_append_left (by omega)] at hdrop
  · right
    rcases hr with rfl | rfl
    · cases hread
    · exact List.mem_singleton.1 (List.mem_of_getElem? hread)

theorem mem_stripMarked {t : List (Char × Bool)} {b : Char × Bool} (h : b ∈ t) (hspace : isSpace b.1 = false) :
    b ∈ stripMarked t := by
  have hdrop : ∀ u : List (Char × Bool), b ∈ u → b ∈ u.dropWhile (isSpace ∘ Prod.fst) := by
    intro u hu
    rw [← List.takeWhile_append_dropWhile (p := isSpace ∘ Prod.fst) (l := u)] at hu
    refine (List.mem_append.1 hu).resolve_left fun htake => ?_
    have hb : (isSpace ∘ Prod.fst) b = true := List.mem_takeWhile_imp htake
    replace hb : isSpace b.1 = true := hb
    rw [hspace] at hb
    cases hb
  exact List.mem_reverse.2 (hdrop _ (List.mem_reverse.2 (hdrop t h)))

theorem length_stripMarked_le (t : List (Char × Bool)) : (stripMarked t).length ≤ t.length := by
  rw [stripMarked, List.length_reverse]
  refine (List.dropWhile_suffix _).length_le.trans ?_
  rw [List.length_reverse]
  exact (List.dropWhile_suffix _).length_le

/-- Such values become shorter, and the text stays within the limit. -/
theorem length_tracedRedact_le (h : ∀ value ∈ values, Ordinary value) :
    (tracedRedact stderr values cap).length ≤ cap := by
  have hlength : (markedRead values stderr cap).length ≤ cap := by
    rw [← List.length_map (f := Prod.fst), map_fst_markedRead, readStreamLimited_eq]
    exact (length_decodeUtf8_le _).trans (List.length_take_le _ _)
  have hwords : ∀ value ∈ values, (unmarked stars).length ≤ value.length := fun value hvalue => (h value hvalue).1
  exact (length_replaceAll_le hwords _).trans hlength

/-- **For such values the condition is exact.** -/
theorem covered_of_keepsSecret (hvalues : ∀ value ∈ values, Ordinary value)
    (hapart : OutsideStars values (readText stderr.data cap)) (h : KeepsSecret values stderr cap) :
    Covered values stderr cap := by
  refine ⟨hapart, fun place hinside hshown => ?_⟩
  obtain ⟨c, hread⟩ : ∃ c, (readText stderr.data cap)[place]? = some c := by
    rw [covers, List.getElem?_map] at hshown
    obtain ⟨p, hp, -⟩ := Option.map_eq_some_iff.1 hshown
    exact ⟨_, (getElem?_coverAll hp).1⟩
  have hspace : isSpace c = false := by
    rcases mem_value_of_read hread hinside with ⟨value, hvalue, hc⟩ | rfl
    · exact (hvalues value hvalue).2 c hc
    · decide
  -- what is shown is neither stripped nor cut, since no replacement is longer than its value
  have hmem := mem_stripMarked ((marked_mem_tracedRedact_iff hapart).2 ⟨place, hread, hinside, hshown⟩) hspace
  have hcut : (stripMarked (tracedRedact stderr values cap)).take cap = stripMarked (tracedRedact stderr values cap) :=
    List.take_of_length_le ((length_stripMarked_le _).trans (length_tracedRedact_le hvalues))
  have hsurvives : (c, true) ∈ tracedStderr stderr values cap := by
    unfold tracedStderr compactMarked
    simp only [hcut]
    split_ifs
    · exact hmem
    · exact List.mem_append_left _ hmem
  cases h.noPart _ hsurvives

/-- **When the secret is kept.**  Where no value is found in the asterisks that stand for another and every character
of an occurrence that is read is covered; for values of at least three characters without white space that are not found
in such asterisks only there. -/
theorem keepsSecret_iff : (Covered values stderr cap → KeepsSecret values stderr cap) ∧
    ((∀ value ∈ values, Ordinary value) → OutsideStars values (readText stderr.data cap) →
      (KeepsSecret values stderr cap ↔ Covered values stderr cap)) :=
  ⟨keepsSecret_of_covered, fun hvalues hapart => ⟨covered_of_keepsSecret hvalues hapart, keepsSecret_of_covered⟩⟩

/-! ### A value at the limit -/

/-- A value, and what a command writes with it. -/
def apiToken : Text := "ABCDEFGH".toList

def otherToken : Text := "STUVWXYZ".toList

def rejected (token : Text) : Text := "token=".toList ++ token

/-- A command that writes the text. -/
def writing (text : Text) : Stream := Stream.ofData (asciiBytes text)

theorem readText_writing {text : Text} (h : text.all (fun c => c.toNat < 128) = true) (n : ℕ) :
    readText (writing text).data n = text.take n := by
  rw [readText, writing, Stream.data_ofData, take_asciiBytes]
  refine decodeUtf8_asciiBytes fun c hc => ?_
  exact of_decide_eq_true (List.all_eq_true.1 h c (List.mem_of_mem_take hc))

/-- With the limit behind the value it is kept. -/
theorem apiToken_kept : KeepsSecret [apiToken] (writing (rejected apiToken)) 4096 := by
  have hread : readText (writing (rejected apiToken)).data 4096 = rejected apiToken :=
    readText_writing (by decide) 4096
  have htext : decodeUtf8 (writing (rejected apiToken)).data = rejected apiToken := by
    rw [← readText_all]
    exact readText_writing (by decide) _
  have hcovered : ∀ place < 14, insideValue [apiToken] (rejected apiToken) place = true →
      (covers [apiToken] (rejected apiToken))[place]? ≠ some .shown := by
    decide +kernel
  refine keepsSecret_iff.1 ⟨outsideStars_of_tail (by decide) _, fun place hinside => ?_⟩
  rw [htext] at hinside
  rw [hread]
  by_cases hplace : place < 14
  · exact hcovered place hplace hinside
  · rw [List.getElem?_eq_none]
    · simp
    · rw [covers, List.length_map, length_coverAll]
      exact not_lt.1 hplace

theorem alike_writing : Alike [apiToken] [otherToken] (writing (rejected apiToken)).data
    (writing (rejected otherToken)).data := by
  have hread : ∀ n, readText (writing (rejected apiToken)).data n = (rejected apiToken).take n :=
    readText_writing (by decide)
  have hread' : ∀ n, readText (writing (rejected otherToken)).data n = (rejected otherToken).take n :=
    readText_writing (by decide)
  have hlength : (rejected apiToken).length = 14 := by decide
  have hlength' : (rejected otherToken).length = 14 := by decide
  have htext : decodeUtf8 (writing (rejected apiToken)).data = rejected apiToken := by
    rw [← readText_all, hread, List.take_of_length_le]
    rw [writing, Stream.data_ofData, length_asciiBytes]
  have hoccurs : ∀ i < 14, apiToken <+: (rejected apiToken).drop i ↔ otherToken <+: (rejected otherToken).drop i := by
    decide
  have houtside : ∀ place < 14, insideValue [apiToken] (rejected apiToken) place = false →
      (rejected apiToken)[place]? = (rejected otherToken)[place]? := by
    decide +kernel
  refine ⟨?_, fun n => ?_, .cons ⟨by decide, fun n i => ?_⟩ .nil, fun n place hplace => ?_,
    fun n => outsideStars_of_tail (by decide) _⟩
  · rw [writing, writing, Stream.data_ofData, Stream.data_ofData, length_asciiBytes, length_asciiBytes, hlength,
      hlength']
  · rw [hread, hread', List.length_take, List.length_take, hlength, hlength']
  · rw [hread, hread', List.drop_take, List.drop_take, List.prefix_take_iff, List.prefix_take_iff]
    refine and_congr ?_ Iff.rfl
    by_cases hi : i < 14
    · exact hoccurs i hi
    · rw [List.drop_of_length_le (by omega), List.drop_of_length_le (by omega)]
      decide
  · rw [htext] at hplace
    rw [hread, hread', List.getElem?_take, List.getElem?_take]
    by_cases hlt : place < 14
    · rw [houtside place hlt hplace]
    · rw [List.getElem?_eq_none (by omega), List.getElem?_eq_none (by omega)]

/-- **With the limit inside the value a part of it survives**, and another value is shown as another text. -/
theorem apiToken_cut : Alike [apiToken] [otherToken] (writing (rejected apiToken)).data
      (writing (rejected otherToken)).data ∧
    stderrOf (writing (rejected apiToken)) [apiToken] 10 ≠ stderrOf (writing (rejected otherToken)) [otherToken] 10 ∧
    ¬ KeepsSecret [apiToken] (writing (rejected apiToken)) 10 := by
  have hsurvives : ('A', true) ∈ tracedStderr (writing (rejected apiToken)) [apiToken] 10 := by decide +kernel
  exact ⟨alike_writing, by decide +kernel, fun h => absurd (h.noPart _ hsurvives) (by decide)⟩

end VpnBot.Shell
