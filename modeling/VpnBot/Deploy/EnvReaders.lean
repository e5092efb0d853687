import VpnBot.Python.ContentLines
import VpnBot.System.Awk
import VpnBot.Warp.FeedFetch

/-!
# The readers of the `.env` file

`read_env` of `src/deploy/backend-config-sync.py` and the pipelines of `sed` and `tail` in `env_raw` of
`src/deploy/helpers/vpn-bot-protocol-uninstall`, `env_sed_val` of `src/scripts/vpn-relay-apply` and
`env_db_path` of `src/scripts/vpn-bot-db-perms`.  The `sed` is that of POSIX: it ends every line that it prints, where
GNU `sed` leaves a last line without a line feed as it is.

Where `read_env` and `sed` take the same text for the value of a key, all readers agree exactly when that text is
plain (`readers_agree`): it has no `#`, nothing stands behind a closing quote, no white space before it and no
single quotes within double ones, and the white space around a value without quotes is ASCII.
-/

namespace VpnBot.Deploy

open Py

/-! ### `read_env` -/

/-- `[A-Za-z_][A-Za-z0-9_]*`. -/
def isName : Text → Bool
  | [] => false
  | c :: t => (c.isAlpha || c = '_') && t.all fun d => d.isAlphanum || d = '_'

/-- `([A-Za-z_][A-Za-z0-9_]*)=(.*)$`. -/
def assignment (t : Text) : Option (Text × Text) := (splitOnce '=' t).filter fun p => isName p.1

/-- What stands behind `export` and white space. -/
def afterExport (space : Char → Bool) (t : Text) : Option Text :=
  if startsWith "export".toList t && (t.drop 6).head?.any space then some ((t.drop 6).dropWhile space)
  else none

/-- The match of a line, with the name and the text behind the equals sign. -/
def matchLine (raw : Text) : Option (Text × Text) :=
  ((afterExport isSpace raw).bind assignment).or (assignment raw)

/-- The text begins and ends with the quote. -/
def isQuotedBy (q : Char) (t : Text) : Bool := 2 ≤ t.length && t.head? = some q && t.getLast? = some q

/-- The text begins and ends with a quote of one kind. -/
def isQuoted (t : Text) : Bool := isQuotedBy '"' t || isQuotedBy '\'' t

/-- The text without its first and its last character. -/
def inner (t : Text) : Text := t.tail.dropLast

def pythonValue (t : Text) : Text :=
  let val := strip t
  if isQuoted val then inner val else val

/-- `read_env`. -/
def readEnv (t : Text) : Dict Text Text :=
  (splitlines (Warp.universalNewlines t)).foldl
    (fun values raw =>
      match matchLine raw with
      | none => values
      | some (name, rest) => values.set name (pythonValue rest))
    Dict.empty

/-! ### The pipelines -/

/-- The key, white space and the equals sign; it gives the text behind them. -/
def afterKey (key t : Text) : Option Text :=
  if startsWith key t then
    match (t.drop key.length).dropWhile Awk.isSpace with
    | '=' :: rest => some rest
    | _ => none
  else none

/-- The text behind the equals sign of a line that `sed` prints. -/
def sedMatch (key line : Text) : Option Text :=
  ((afterExport Awk.isSpace (line.dropWhile Awk.isSpace)).bind (afterKey key)).or
    (afterKey key (line.dropWhile Awk.isSpace))

/-- `s/[[:space:]]*#.*$//`. -/
def cutComment (t : Text) : Text :=
  if '#' ∈ t then (t.takeWhile (· ≠ '#')).rdropWhile Awk.isSpace else t

/-- `s/^"\(.*\)"$/\1/`, for the quote. -/
def unquote (q : Char) (t : Text) : Text := if isQuotedBy q t then inner t else t

/-- The second `sed`. -/
def sedValue (t : Text) : Text :=
  (unquote '\'' (unquote '"' (cutComment t))).rdropWhile Awk.isSpace

/-- The pipeline: the last line that `sed` prints. -/
def envPipeline (key t : Text) : Text :=
  match ((Awk.records t).filterMap fun line =>
    (sedMatch key line).map fun rest => rest.dropWhile Awk.isSpace).getLast? with
  | none => []
  | some printed => sedValue printed

/-- `env_raw`. -/
def envRaw (key t : Text) : Text := envPipeline key t

/-- `^[A-Z_][A-Z0-9_]*$`. -/
def isSedKey : Text → Bool
  | [] => false
  | c :: t => (c.isUpper || c = '_') && t.all fun d => d.isUpper || d.isDigit || d = '_'

/-- `env_sed_val`. -/
def envSedVal (key t : Text) : Text := if isSedKey key then envPipeline key t else []

/-- `env_db_path`. -/
def envDbPath (t : Text) : Text := envPipeline "DB_PATH".toList t

/-! ### Agreement -/

/-- A key: upper-case letters, digits and underscores. -/
structure Key where
  text : Text
  chars : ∀ c ∈ text, c.isUpper = true ∨ c.isDigit = true ∨ c = '_'

/-- All readers give the same value; one that has none gives the empty text. -/
structure Agree (key : Key) (t : Text) : Prop where
  raw : ((readEnv t).get? key.text).getD [] = envRaw key.text t
  sedVal : envSedVal key.text t = envRaw key.text t
  dbPath : key.text = "DB_PATH".toList → envDbPath t = envRaw key.text t

/-- The text behind the equals sign that `read_env` takes for the value. -/
def pythonRaw (key t : Text) : Option Text :=
  ((splitlines t).filterMap fun raw => ((matchLine raw).filter fun p => p.1 = key).map Prod.snd).getLast?

/-- The text behind the equals sign that `sed` takes for the value. -/
def sedRaw (key t : Text) : Option Text := ((Awk.records t).filterMap (sedMatch key)).getLast?

/-- Both take the same text, up to a carriage return at the end of the line, or none. -/
inductive SameText (key t : Text) : Prop
  | unset (hpython : pythonRaw key t = none) (hsed : sedRaw key t = none)
  | set (v s : Text) (hpython : pythonRaw key t = some v) (hsed : sedRaw key t = some (v ++ s))
    (hs : s = [] ∨ s = ['\r'])

/-- The text `v`, of which `sed` gets `w`, is plain. -/
structure Plain (v w : Text) : Prop where
  comment : '#' ∉ v
  quoted : isQuoted (strip v) = true →
    w = strip v ∧ (∀ c ∈ (inner (strip v)).getLast?, Awk.isSpace c = false) ∧
      (isQuotedBy '"' (strip v) = true → isQuotedBy '\'' (inner (strip v)) = false)
  bare : isQuoted (strip v) = false → w.rdropWhile Awk.isSpace = strip v

/-! ### One value -/

variable {q c : Char} {t v w s : Text}

theorem isSpace_of_posix (h : Awk.isSpace c = true) : isSpace c = true := by
  simp only [Awk.isSpace, isSpace, Bool.or_eq_true, Bool.and_eq_true, decide_eq_true_eq] at h ⊢
  rcases h with rfl | h
  · decide
  · omega

theorem length_inner (h : isQuotedBy q t = true) : (inner t).length + 2 = t.length := by
  have hlen : 2 ≤ t.length := by
    simp only [isQuotedBy, Bool.and_eq_true, decide_eq_true_eq] at h
    exact h.1.1
  rw [inner, List.length_dropLast, List.length_tail]
  omega

theorem mem_of_mem_inner (h : c ∈ inner t) : c ∈ t := List.mem_of_mem_tail (List.mem_of_mem_dropLast h)

theorem mem_inner_of_mem (h : isQuotedBy q t = true) (hc : c ∈ t) (hne : c ≠ q) : c ∈ inner t := by
  simp only [isQuotedBy, Bool.and_eq_true, decide_eq_true_eq] at h
  obtain ⟨⟨hlen, hhead⟩, hlast⟩ := h
  cases t with
  | nil => cases hc
  | cons d t =>
    obtain rfl : d = q := Option.some.inj hhead
    have ht : c ∈ t := (List.mem_cons.mp hc).resolve_left hne
    have hnil : t ≠ [] := List.ne_nil_of_mem ht
    have hd : t.getLast hnil = d := by
      rw [List.getLast?_cons, List.getLast?_eq_some_getLast hnil] at hlast
      simpa using hlast
    rw [← List.dropLast_append_getLast hnil, hd] at ht
    rcases List.mem_append.mp ht with ht | ht
    · exact ht
    · exact absurd (List.mem_singleton.mp ht) hne

theorem not_mem_sedValue (t : Text) : '#' ∉ sedValue t := by
  intro h
  have hunquote {q : Char} {t : Text} (h : '#' ∈ unquote q t) : '#' ∈ t := by
    unfold unquote at h
    split_ifs at h
    · exact mem_of_mem_inner h
    · exact h
  have hcut : '#' ∈ cutComment t := hunquote (hunquote ((List.rdropWhile_prefix _ _).subset h))
  unfold cutComment at hcut
  split_ifs at hcut with hmem
  · have htake := List.mem_takeWhile_imp ((List.rdropWhile_prefix _ _).subset hcut)
    simp at htake
  · exact hmem hcut

theorem strip_dropWhile_append (hs : ∀ c ∈ s, isSpace c = true) (v : Text) :
    strip ((v ++ s).dropWhile Awk.isSpace) = strip v := by
  have hfront : ∀ c ∈ (v ++ s).takeWhile Awk.isSpace, isSpace c = true := fun c hc =>
    isSpace_of_posix (List.mem_takeWhile_imp hc)
  rw [← strip_append_left hfront, List.takeWhile_append_dropWhile, strip_append_of_forall hs]

theorem strip_rdropWhile (w : Text) : strip (w.rdropWhile Awk.isSpace) = strip w := by
  have hback : ∀ c ∈ w.rtakeWhile Awk.isSpace, isSpace c = true := fun c hc =>
    isSpace_of_posix (List.mem_rtakeWhile_imp hc)
  rw [← strip_append_of_forall hback, List.rdropWhile_append_rtakeWhile]

theorem strip_of_isQuotedBy (hq : isSpace q = false) (h : isQuotedBy q w = true) : strip w = w := by
  simp only [isQuotedBy, Bool.and_eq_true, decide_eq_true_eq] at h
  refine strip_of_ends (fun c hc => ?_) fun c hc => ?_
  · rw [h.1.2] at hc
    rw [← Option.some.inj hc, hq]
  · rw [h.2] at hc
    rw [← Option.some.inj hc, hq]

theorem sedValue_of_not_quoted (hhash : '#' ∉ w) (h : isQuoted w = false) :
    sedValue w = w.rdropWhile Awk.isSpace := by
  simp only [isQuoted, Bool.or_eq_false_iff] at h
  rw [sedValue, cutComment, if_neg hhash, unquote, unquote]
  simp [h]

theorem strip_of_isQuoted (h : isQuoted w = true) : strip w = w := by
  simp only [isQuoted, Bool.or_eq_true] at h
  exact h.elim (strip_of_isQuotedBy (by decide)) (strip_of_isQuotedBy (by decide))

theorem length_inner_lt (h : isQuoted t = true) : (inner t).length < t.length := by
  simp only [isQuoted, Bool.or_eq_true] at h
  rcases h with h | h <;> have := length_inner h <;> omega

theorem mem_pythonValue (hc : c ∈ v) (hspace : isSpace c = false) (hdouble : c ≠ '"') (hsingle : c ≠ '\'') :
    c ∈ pythonValue v := by
  have hmem : c ∈ strip v := mem_strip_of_mem hc hspace
  unfold pythonValue
  dsimp only
  split_ifs with hquoted
  · simp only [isQuoted, Bool.or_eq_true] at hquoted
    exact hquoted.elim (mem_inner_of_mem · hmem hdouble) (mem_inner_of_mem · hmem hsingle)
  · exact hmem

theorem rdropWhile_eq_self_iff_getLast? {p : Char → Bool} :
    t.rdropWhile p = t ↔ ∀ c ∈ t.getLast?, p c = false := by
  rw [List.rdropWhile_eq_self_iff]
  cases t with
  | nil => simp
  | cons c t => simp [List.getLast?_eq_some_getLast]

theorem inner_eq_sedValue_iff (hquoted : isQuoted t = true) (hhash : '#' ∉ t) :
    inner t = sedValue t ↔ (∀ c ∈ (inner t).getLast?, Awk.isSpace c = false) ∧
      (isQuotedBy '"' t = true → isQuotedBy '\'' (inner t) = false) := by
  have hvalue : sedValue t = (unquote '\'' (unquote '"' t)).rdropWhile Awk.isSpace := by
    rw [sedValue, cutComment, if_neg hhash]
  rw [hvalue, ← rdropWhile_eq_self_iff_getLast?]
  cases hdouble : isQuotedBy '"' t with
  | false =>
    have hsingle : isQuotedBy '\'' t = true := by simpa [isQuoted, hdouble] using hquoted
    have hunquote : unquote '\'' (unquote '"' t) = inner t := by simp [unquote, hdouble, hsingle]
    rw [hunquote]
    exact ⟨fun h => ⟨h.symm, nofun⟩, fun h => h.1.symm⟩
  | true =>
    cases hsingle : isQuotedBy '\'' (inner t) with
    | false =>
      have hunquote : unquote '\'' (unquote '"' t) = inner t := by simp [unquote, hdouble, hsingle]
      rw [hunquote]
      exact ⟨fun h => ⟨h.symm, fun _ => rfl⟩, fun h => h.1.symm⟩
    | true =>
      have hunquote : unquote '\'' (unquote '"' t) = inner (inner t) := by simp [unquote, hdouble, hsingle]
      rw [hunquote]
      refine iff_of_false (fun h => ?_) (by simp)
      have hlen := length_inner hsingle
      have hle : ((inner (inner t)).rdropWhile Awk.isSpace).length ≤ (inner (inner t)).length :=
        (List.rdropWhile_prefix _ _).length_le
      rw [← h] at hle
      omega

/-- **The values of one text**: `read_env` and `sed` make the same of it exactly when it is plain. -/
theorem pythonValue_eq_sedValue_iff (hsame : strip w = strip v) (hmem : '#' ∈ v ↔ '#' ∈ w) :
    pythonValue v = sedValue w ↔ Plain v w := by
  by_cases hhash : '#' ∈ v
  · refine iff_of_false (fun h => ?_) fun h => h.comment hhash
    have hpython : '#' ∈ pythonValue v := mem_pythonValue hhash (by decide) (by decide) (by decide)
    rw [h] at hpython
    exact not_mem_sedValue w hpython
  have hcut : '#' ∉ w := fun h => hhash (hmem.mpr h)
  cases hquoted : isQuoted (strip v) with
  | false =>
    have hw : isQuoted w = false := by
      by_contra hw
      rw [Bool.not_eq_false] at hw
      rw [← hsame, strip_of_isQuoted hw, hw] at hquoted
      cases hquoted
    have hvalue : pythonValue v = strip v := by simp [pythonValue, hquoted]
    rw [hvalue, sedValue_of_not_quoted hcut hw]
    exact ⟨fun h => ⟨hhash, fun h' => absurd h' (by rw [hquoted]; exact Bool.false_ne_true), fun _ => h.symm⟩,
      fun h => (h.bare hquoted).symm⟩
  | true =>
    have hvalue : pythonValue v = inner (strip v) := by simp [pythonValue, hquoted]
    rw [hvalue]
    by_cases hw : w = strip v
    · subst hw
      rw [inner_eq_sedValue_iff hquoted hcut]
      exact ⟨fun h => ⟨hhash, fun _ => ⟨rfl, h.1, h.2⟩, fun h' => absurd h' (by rw [hquoted]; decide)⟩,
        fun h => (h.quoted hquoted).2⟩
    · refine iff_of_false (fun h => ?_) fun h => hw (h.quoted hquoted).1
      have hnot : isQuoted w = false := by
        by_contra hnot
        rw [Bool.not_eq_false] at hnot
        exact hw (by rw [← hsame, strip_of_isQuoted hnot])
      rw [sedValue_of_not_quoted hcut hnot] at h
      have hlen : (strip v).length ≤ (w.rdropWhile Awk.isSpace).length := by
        rw [← hsame, ← strip_rdropWhile]
        exact length_strip_le _
      have hlt := length_inner_lt hquoted
      rw [h] at hlt
      omega

/-! ### One file -/

variable {key : Key}

theorem get?_foldl (name : Text) (lines : List Text) (values : Dict Text Text) :
    (lines.foldl
      (fun values raw =>
        match matchLine raw with
        | none => values
        | some (name, rest) => values.set name (pythonValue rest)) values).get? name =
      (((lines.filterMap fun raw => ((matchLine raw).filter fun p => p.1 = name).map Prod.snd).getLast?).map
        pythonValue).or (values.get? name) := by
  induction lines generalizing values with
  | nil => rfl
  | cons raw lines ih =>
    rw [List.foldl_cons, ih, List.filterMap_cons]
    cases hmatch : matchLine raw with
    | none => rfl
    | some p =>
      obtain ⟨name', rest⟩ := p
      by_cases hname : name' = name
      · subst hname
        simp only [Option.filter_some, decide_true, if_true, Option.map_some, Dict.get?_set_self]
        rw [List.getLast?_cons]
        cases (lines.filterMap fun raw => ((matchLine raw).filter fun p => p.1 = name').map Prod.snd).getLast? <;>
          rfl
      · simp only [Option.filter_some, hname, decide_false, Bool.false_eq_true, if_false, Option.map_none,
          Dict.get?_set_of_ne _ _ (Ne.symm hname)]

theorem get?_readEnv (name t : Text) : (readEnv t).get? name = (pythonRaw name t).map pythonValue := by
  unfold readEnv pythonRaw
  rw [get?_foldl, Warp.splitlines_universalNewlines, Dict.get?_empty, Option.or_none]

theorem envPipeline_eq (name t : Text) :
    envPipeline name t = ((sedRaw name t).map fun rest => sedValue (rest.dropWhile Awk.isSpace)).getD [] := by
  have hlines : ((Awk.records t).filterMap fun line =>
      (sedMatch name line).map fun rest => rest.dropWhile Awk.isSpace) =
        ((Awk.records t).filterMap (sedMatch name)).map fun rest => rest.dropWhile Awk.isSpace := by
    rw [List.map_filterMap]
  unfold envPipeline sedRaw
  rw [hlines, List.getLast?_map]
  cases ((Awk.records t).filterMap (sedMatch name)).getLast? <;> rfl

theorem isName_of_assignment {p : Text × Text} (h : assignment t = some p) : isName p.1 = true :=
  (Option.filter_eq_some_iff.mp h).2

theorem isName_of_matchLine {raw : Text} {p : Text × Text} (h : matchLine raw = some p) :
    isName p.1 = true := by
  unfold matchLine at h
  rcases Option.or_eq_some_iff.mp h with h | ⟨-, h⟩
  · obtain ⟨rest, -, hrest⟩ := Option.bind_eq_some_iff.mp h
    exact isName_of_assignment hrest
  · exact isName_of_assignment h

theorem isSedKey_of_isName (h : isName key.text = true) : isSedKey key.text = true := by
  obtain ⟨text, chars⟩ := key
  cases text with
  | nil => exact absurd h Bool.false_ne_true
  | cons c t =>
    simp only [isName, Bool.and_eq_true, Bool.or_eq_true, decide_eq_true_eq] at h
    simp only [isSedKey, Bool.and_eq_true, Bool.or_eq_true, decide_eq_true_eq, List.all_eq_true]
    refine ⟨?_, fun d hd => ?_⟩
    · rcases chars c List.mem_cons_self with hupper | hdigit | rfl
      · exact .inl hupper
      · exfalso
        rcases h.1 with halpha | rfl
        · simp only [Char.isAlpha, Char.isUpper, Char.isLower, Char.isDigit, Bool.or_eq_true,
            Bool.and_eq_true, decide_eq_true_eq, UInt32.le_iff_toNat_le, ge_iff_le] at halpha hdigit
          have h9 : '9'.val.toNat = 57 := rfl
          have hA : 'A'.val.toNat = 65 := rfl
          have ha : 'a'.val.toNat = 97 := rfl
          omega
        · revert hdigit
          decide
      · exact .inr rfl
    · rcases chars d (List.mem_cons_of_mem _ hd) with hupper | hdigit | rfl
      · exact .inl (.inl hupper)
      · exact .inl (.inr hdigit)
      · exact .inr rfl

/-- A key that `read_env` finds is one that `env_sed_val` takes. -/
theorem isSedKey_of_pythonRaw (h : pythonRaw key.text t = some v) : isSedKey key.text = true := by
  obtain ⟨raw, -, hraw⟩ := List.mem_filterMap.mp (List.mem_of_getLast? h)
  obtain ⟨p, hp, -⟩ := Option.map_eq_some_iff.mp hraw
  obtain ⟨hmatch, hname⟩ := Option.filter_eq_some_iff.mp hp
  have hname : p.1 = key.text := by simpa using hname
  exact isSedKey_of_isName (by rw [← hname]; exact isName_of_matchLine hmatch)

theorem agree_of_unset (hpython : pythonRaw key.text t = none) (hsed : sedRaw key.text t = none) :
    Agree key t := by
  have hpipeline : envPipeline key.text t = [] := by
    rw [envPipeline_eq, hsed]
    rfl
  refine ⟨?_, ?_, fun h => by rw [envDbPath, envRaw, h]⟩
  · rw [get?_readEnv, hpython, envRaw, hpipeline]
    rfl
  · rw [envSedVal, envRaw, hpipeline, ite_self]

theorem agree_iff_of_set (hpython : pythonRaw key.text t = some v) (hsed : sedRaw key.text t = some (v ++ s))
    (hs : s = [] ∨ s = ['\r']) : Agree key t ↔ Plain v ((v ++ s).dropWhile Awk.isSpace) := by
  have hspace : ∀ c ∈ s, isSpace c = true := by
    rcases hs with rfl | rfl
    · simp
    · exact List.forall_mem_singleton.mpr rfl
  have hpipeline : envPipeline key.text t = sedValue ((v ++ s).dropWhile Awk.isSpace) := by
    rw [envPipeline_eq, hsed]
    rfl
  have hmem : '#' ∈ v ↔ '#' ∈ (v ++ s).dropWhile Awk.isSpace := by
    constructor
    · intro h
      have hall : '#' ∈ (v ++ s).takeWhile Awk.isSpace ++ (v ++ s).dropWhile Awk.isSpace := by
        rw [List.takeWhile_append_dropWhile]
        exact List.mem_append_left s h
      rcases List.mem_append.mp hall with h | h
      · exact absurd (List.mem_takeWhile_imp h) (by decide)
      · exact h
    · intro h
      rcases List.mem_append.mp ((List.dropWhile_suffix _).subset h) with h | h
      · exact h
      · exact absurd (hspace _ h) (by decide)
  rw [← pythonValue_eq_sedValue_iff (strip_dropWhile_append hspace v) hmem]
  constructor
  · intro h
    have hraw := h.raw
    rw [get?_readEnv, hpython, envRaw, hpipeline] at hraw
    exact hraw
  · intro h
    refine ⟨?_, ?_, fun h => by rw [envDbPath, envRaw, h]⟩
    · rw [get?_readEnv, hpython, envRaw, hpipeline]
      exact h
    · rw [envSedVal, if_pos (isSedKey_of_pythonRaw hpython), envRaw]

/-- The key is unset for both readers, or they take the same text and it is plain. -/
inductive PlainlySet (key t : Text) : Prop
  | unset (hpython : pythonRaw key t = none) (hsed : sedRaw key t = none)
  | set (v s : Text) (hpython : pythonRaw key t = some v) (hsed : sedRaw key t = some (v ++ s))
    (hs : s = [] ∨ s = ['\r']) (hplain : Plain v ((v ++ s).dropWhile Awk.isSpace))

/-- **The readers agree where the key is plainly set**, and where both take the same text only there. -/
theorem readers_agree (key : Key) (t : Text) :
    (PlainlySet key.text t → Agree key t) ∧ (SameText key.text t → Agree key t → PlainlySet key.text t) := by
  constructor
  · rintro (⟨hpython, hsed⟩ | ⟨v, s, hpython, hsed, hs, hplain⟩)
    · exact agree_of_unset hpython hsed
    · exact (agree_iff_of_set hpython hsed hs).mpr hplain
  · rintro (⟨hpython, hsed⟩ | ⟨v, s, hpython, hsed, hs⟩) hagree
    · exact .unset hpython hsed
    · exact .set v s hpython hsed hs ((agree_iff_of_set hpython hsed hs).mp hagree)

def portKey : Key :=
  ⟨"PORT".toList, fun c hc => Or.inl (List.all_eq_true.mp (by decide +kernel : "PORT".toList.all Char.isUpper) c hc)⟩

theorem readers_agree_port : Agree portKey "PORT=443\n".toList :=
  (readers_agree portKey _).1 (.set "443".toList [] (by decide +kernel) (by decide +kernel) (.inl rfl)
    ⟨by decide, fun h => absurd h (by decide), fun _ => by decide⟩)

/-- `read_env` keeps the comment behind a value. -/
theorem comment_kept : ¬ ∀ (key : Key) (t : Text), Agree key t := by
  intro h
  have hraw := (h portKey "PORT=443 # https\n".toList).raw
  revert hraw
  decide +kernel

end VpnBot.Deploy
