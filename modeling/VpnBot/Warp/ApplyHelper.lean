import VpnBot.Warp.EditFrame
import VpnBot.Warp.FeedFetch

/-!
# The apply helper

`scripts/vpn-bot-warp-split-apply`: the script reads a list, checks every line, renames a temporary file
over the list file and restarts the routing service.  A run of it can end at each of these commands, and
the runner can give it up at any time.

`applyScript_exited_zero` says what a run that exits with zero has written: the input, with one newline
at the end.  A rendered list has exactly that form, so such a run leaves it as it is
(`printfLine_commandSubstitution_renderList`).
-/

namespace VpnBot.Warp

open Py Py.Network

/-! ### The script -/

/-- `"$(cat)"`: NUL bytes and the newlines at the end are dropped. -/
def commandSubstitution (stdin : Text) : Text :=
  ((stdin.filter (· ≠ '\x00')).reverse.dropWhile (· = '\n')).reverse

/-- `printf '%s\n' "$content"`. -/
def printfLine (content : Text) : Text := content ++ ['\n']

/-- The entries that the check of the script finds: a line without its comment, unless it is blank. -/
def scriptEntries (content : Text) : List Text :=
  ((splitAt '\n' (universalNewlines (printfLine content))).map fun raw =>
    strip (beforeComment raw)).filter (!·.isEmpty)

/-- An entry needs a prefix length, and no host bits may be set. -/
def scriptAccepts (entry : Text) : Bool := '/' ∈ entry && (IPv4.parse true entry).isSome

/-- The check of the script: every entry is good, and there is one. -/
def scriptValidates (content : Text) : Bool :=
  (scriptEntries content).all scriptAccepts && !(scriptEntries content).isEmpty

/-- The return codes of the commands of a run, in the order of the script. -/
structure ScriptCommands where
  mktemp : ℤ
  write : ℤ
  chown : ℤ
  chmod : ℤ
  mv : ℤ
  restart : ℤ

/-- What becomes of a run: it goes on to its end, or it is given up before or after the rename; then the
runner returns a code of its own, or it raises. -/
inductive ScriptEnd
  | ran (commands : ScriptCommands)
  | stopped (returncode : { code : ℤ // code ≠ 0 }) (moved : Bool)
  | raised (moved : Bool)

/-- The first return code that is not zero; `set -e` ends the script there. -/
def firstFailure (codes : List ℤ) : Option ℤ := codes.find? (· ≠ 0)

/-- A run of the script; `detail` is what it prints. -/
def applyScript (detail : Text) (scriptEnd : ScriptEnd) (stdin : Text) (file : Option Text) :
    HelperRun :=
  let content := commandSubstitution stdin
  let valid := !content.isEmpty && scriptValidates content
  let written := some (printfLine content)
  match scriptEnd with
  | .raised moved => .raised (if valid && moved then written else file)
  | .stopped returncode moved =>
    .exited returncode detail (if valid && moved then written else file)
  | .ran commands =>
    if !valid then .exited 1 detail file
    else
      match firstFailure [commands.mktemp, commands.write, commands.chown, commands.chmod,
          commands.mv] with
      | some code => .exited code detail file
      | none => .exited commands.restart detail written

/-! ### What it leaves -/

/-- **A run that exits with zero has written its input.** -/
theorem applyScript_exited_zero {detail detail' stdin : Text} {scriptEnd : ScriptEnd}
    {file file' : Option Text}
    (h : applyScript detail scriptEnd stdin file = .exited 0 detail' file') :
    file' = some (printfLine (commandSubstitution stdin)) := by
  unfold applyScript at h
  cases scriptEnd with
  | raised moved => cases h
  | stopped returncode moved =>
    rw [HelperRun.exited.injEq] at h
    exact absurd h.1 returncode.2
  | ran commands =>
    dsimp only at h
    split_ifs at h
    · cases h
    · cases hfail : firstFailure [commands.mktemp, commands.write, commands.chown, commands.chmod,
          commands.mv] with
      | none =>
        rw [hfail] at h
        exact (HelperRun.exited.inj h).2.2.symm
      | some code =>
        -- a failing command has a code of its own
        rw [hfail] at h
        have hcode := List.find?_some hfail
        rw [(HelperRun.exited.inj h).1] at hcode
        simp at hcode

theorem join_eq_append (d : Char) {l : List Text} (hne : l ≠ []) :
    ∃ u, join d l = u ++ l.getLast hne := by
  induction l with
  | nil => exact absurd rfl hne
  | cons t l ih =>
    cases l with
    | nil => exact ⟨[], by simp [join, List.intercalate]⟩
    | cons v l =>
      obtain ⟨u, hu⟩ := ih (List.cons_ne_nil v l)
      refine ⟨t ++ d :: u, ?_⟩
      rw [List.getLast_cons (List.cons_ne_nil v l), List.append_assoc, List.cons_append, ← hu]
      simp [join, List.intercalate]

theorem join_text_concat {networks : List IPv4Network} (hne : networks ≠ []) :
    ∃ u c, join '\n' (networks.map IPv4.text) = u ++ [c] ∧ c.isDigit = true := by
  have hmap : networks.map IPv4.text ≠ [] := by simpa using hne
  obtain ⟨u, hu⟩ := join_eq_append '\n' hmap
  obtain ⟨n, -, hn⟩ := List.mem_map.1 (List.getLast_mem hmap)
  obtain ⟨v, hv⟩ := join_eq_append '/' (List.cons_ne_nil (IPv4.addressText n.addr) [natText n.prefixlen])
  rw [List.getLast_cons (List.cons_ne_nil _ _), List.getLast_singleton] at hv
  have hdigits := natText_ne_nil n.prefixlen
  refine ⟨u ++ (v ++ (natText n.prefixlen).dropLast), (natText n.prefixlen).getLast hdigits, ?_,
    isDigit_of_mem_natText (List.getLast_mem hdigits)⟩
  rw [hu, ← hn, IPv4.text, hv, List.append_assoc, List.append_assoc, List.dropLast_append_getLast]

/-- **A rendered list is written as it is.** -/
theorem printfLine_commandSubstitution_renderList {networks : List IPv4Network} (hne : networks ≠ []) :
    printfLine (commandSubstitution (renderList (networks.map IPv4.text))) =
      renderList (networks.map IPv4.text) := by
  obtain ⟨u, c, hjoin, hdigit⟩ := join_text_concat hne
  have hnul : ∀ d ∈ renderList (networks.map IPv4.text), d ≠ '\x00' := by
    intro d hd
    rcases List.mem_append.1 hd with hd | hd
    · rcases mem_join hd with rfl | ⟨t, ht, hd⟩
      · decide
      · obtain ⟨n, -, rfl⟩ := List.mem_map.1 ht
        rintro rfl
        have hspace := char_of_mem_text hd
        revert hspace
        decide
    · rw [List.mem_singleton.1 hd]
      decide
  have hc : c ≠ '\n' := by
    rintro rfl
    revert hdigit
    decide
  rw [commandSubstitution, List.filter_eq_self.2 (by simpa using hnul), renderList, hjoin, printfLine]
  simp [hc]

/-- A host with the script, whatever becomes of its runs. -/
def scriptHost (probe : Option ℕ) (wan : Option (IPv4Network × Text)) (gateway : Option ℕ)
    (detail : Text → Option Text → Text) (scriptEnd : Text → Option Text → ScriptEnd) : Host where
  probe := probe
  wan := wan
  gateway := gateway
  applyHelper content file := applyScript (detail content file) (scriptEnd content file) content file

/-- The script does what later results ask of a helper. -/
theorem writesList_scriptHost (probe : Option ℕ) (wan : Option (IPv4Network × Text))
    (gateway : Option ℕ) (detail : Text → Option Text → Text)
    (scriptEnd : Text → Option Text → ScriptEnd) :
    WritesList (scriptHost probe wan gateway detail scriptEnd) := by
  intro networks file detail' file' hne hrun
  rw [applyScript_exited_zero hrun, printfLine_commandSubstitution_renderList hne]

/-- Every command of a run succeeds. -/
def everyCommand : ScriptEnd := .ran ⟨0, 0, 0, 0, 0, 0⟩

example : applyScript [] everyCommand "8.8.8.0/24\n".toList none =
    .exited 0 [] (some "8.8.8.0/24\n".toList) := rfl

end VpnBot.Warp
