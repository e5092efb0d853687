import VpnBot.Awg.Runtime

/-!
# Peers and the output cap

What the adapter makes of a command's output, against what the command printed.  Outputs of up to 4096 bytes
come through: the listed peers are the printed ones, a peer is verified when it was printed by a command
that succeeded, and `syncconf` is given the stripped config.  For every greater length there is an output for
which each of the three fails (`peer_data_survives_iff`), and `last_peer_absent` is an interface with 60 peers
whose last one the bot takes to be absent.
-/

namespace VpnBot.Awg

open Py Shell

variable {awg wg : Outcome} {interface publicKey : Text}

/-! ### The three properties -/

def printedText (outcome : Outcome) : Text := decodeUtf8 outcome.printed

def ListsPrinted (interface : Text) (awg wg : Outcome) : Prop :=
  ∀ peers, listRuntimePeers interface awg wg = .ok peers →
    peers = parseRuntimePeers (printedText (ran awg wg))

/-- A peer is verified exactly when it was printed. -/
def VerifiesPrinted (awg wg : Outcome) : Prop :=
  ∀ publicKey, verifyRuntimePeer awg wg publicKey = .ok true ↔
    Prints (printedText (ran awg wg)) publicKey

/-- The file for `syncconf` has the printed config, up to the white space around it. -/
def SyncsPrinted (awgQuick wgQuick : Outcome) : Prop :=
  ∀ written awg wg file, (syncRuntimeFromConfig awgQuick wgQuick written awg wg).1 = some file →
    strip file = strip (printedText (ran awgQuick wgQuick))

/-! ### The operations by the command that counts -/

theorem listRuntimePeers_eq_ok {peers : List Options}
    (h : listRuntimePeers interface awg wg = .ok peers) :
    ∃ result, run maxOutputChars (ran awg wg) = .ok result ∧ result.ok = true ∧
      peers = parseRuntimePeers result.stdout := by
  unfold listRuntimePeers at h
  rw [runAwgOrWg_eq] at h
  cases hrun : run maxOutputChars (ran awg wg) with
  | error error =>
    rw [hrun] at h
    cases h
  | ok result =>
    rw [hrun] at h
    simp only [bind, Except.bind] at h
    cases hok : result.ok with
    | false =>
      rw [hok] at h
      cases h
    | true =>
      rw [hok] at h
      cases h
      exact ⟨result, rfl, hok, rfl⟩

theorem listRuntimePeers_of_ok {result : ShellResult}
    (hrun : run maxOutputChars (ran awg wg) = .ok result) (hok : result.ok = true) :
    listRuntimePeers interface awg wg = .ok (parseRuntimePeers result.stdout) := by
  unfold listRuntimePeers
  rw [runAwgOrWg_eq, hrun]
  simp only [bind, Except.bind, hok]
  rfl

theorem verifyRuntimePeer_of_ok {result : ShellResult}
    (hrun : run maxOutputChars (ran awg wg) = .ok result) (hok : result.ok = true) :
    verifyRuntimePeer awg wg publicKey =
      .ok ((splitlines result.stdout).any fun line => strip line = peerPrefix ++ publicKey) := by
  unfold verifyRuntimePeer
  rw [runAwgOrWg_eq, hrun]
  simp only [bind, Except.bind, hok]
  rfl

theorem verifyRuntimePeer_eq_true_iff :
    verifyRuntimePeer awg wg publicKey = .ok true ↔
      ∃ result, run maxOutputChars (ran awg wg) = .ok result ∧ result.ok = true ∧
        Prints result.stdout publicKey := by
  unfold verifyRuntimePeer
  rw [runAwgOrWg_eq]
  cases hrun : run maxOutputChars (ran awg wg) with
  | error error => exact ⟨nofun, fun ⟨_, h, _⟩ => nomatch h⟩
  | ok result =>
    simp only [bind, Except.bind]
    cases hok : result.ok with
    | false =>
      refine ⟨nofun, fun ⟨_, h, hgood, _⟩ => ?_⟩
      cases h
      rw [hok] at hgood
      cases hgood
    | true =>
      have hany : ((splitlines result.stdout).any fun line => strip line = peerPrefix ++ publicKey) = true ↔
          Prints result.stdout publicKey := by
        simp [Prints, List.any_eq_true]
      constructor
      · intro h
        exact ⟨result, rfl, hok, hany.1 (Except.ok.inj h)⟩
      · rintro ⟨_, h, -, hprints⟩
        cases h
        exact congrArg Except.ok (hany.2 hprints)

theorem syncRuntimeFromConfig_eq_some {awgQuick wgQuick : Outcome} {written : Bool} {file : Text}
    (h : (syncRuntimeFromConfig awgQuick wgQuick written awg wg).1 = some file) :
    ∃ result, run maxOutputChars (ran awgQuick wgQuick) = .ok result ∧ result.ok = true ∧
      file = result.stdout := by
  unfold syncRuntimeFromConfig at h
  cases hstrip : quickStrip awgQuick wgQuick with
  | error error =>
    rw [hstrip] at h
    cases error <;> cases h
  | ok result =>
    rw [hstrip] at h
    simp only at h
    split_ifs at h with hok hwritten
    cases h
    exact ⟨result, quickStrip_eq_ok hstrip, by simpa using hok, rfl⟩

/-! ### Short outputs -/

theorem stdout_of_le {outcome : Outcome} {result : ShellResult}
    (hrun : run maxOutputChars outcome = .ok result) (hok : result.ok = true)
    (hlen : outcome.printed.length ≤ maxOutputChars) :
    result.stdout = strip (printedText outcome) := by
  obtain ⟨-, stdout, hdata, htext⟩ := run_ok hrun hok
  rw [htext, compact_of_le (by rw [hdata]; exact hlen), hdata]
  rfl

theorem listsPrinted_of_le (hlen : (ran awg wg).printed.length ≤ maxOutputChars) :
    ListsPrinted interface awg wg := by
  intro peers h
  obtain ⟨result, hrun, hok, rfl⟩ := listRuntimePeers_eq_ok h
  rw [stdout_of_le hrun hok hlen]
  exact parseRuntimePeers_congr (contentLines_strip _)

theorem verifyRuntimePeer_iff_of_le (hlen : (ran awg wg).printed.length ≤ maxOutputChars) :
    verifyRuntimePeer awg wg publicKey = .ok true ↔
      (ran awg wg).Succeeds ∧ Prints (printedText (ran awg wg)) publicKey := by
  have hseen : ∀ {result : ShellResult}, run maxOutputChars (ran awg wg) = .ok result →
      result.ok = true → (Prints result.stdout publicKey ↔
        Prints (printedText (ran awg wg)) publicKey) := by
    intro result hrun hok
    rw [prints_iff, prints_iff, stdout_of_le hrun hok hlen, contentLines_strip]
  rw [verifyRuntimePeer_eq_true_iff]
  constructor
  · rintro ⟨result, hrun, hok, hprints⟩
    exact ⟨(run_ok hrun hok).1, (hseen hrun hok).1 hprints⟩
  · rintro ⟨hsucceeds, hprints⟩
    obtain ⟨result, hrun, hok⟩ := run_of_succeeds hsucceeds
    exact ⟨result, hrun, hok, (hseen hrun hok).2 hprints⟩

theorem verifiesPrinted_iff_of_le (hlen : (ran awg wg).printed.length ≤ maxOutputChars) :
    VerifiesPrinted awg wg ↔
      (ran awg wg).Succeeds ∨ ∀ publicKey, ¬ Prints (printedText (ran awg wg)) publicKey := by
  have hverify : ∀ publicKey, verifyRuntimePeer awg wg publicKey = .ok true ↔
      (ran awg wg).Succeeds ∧ Prints (printedText (ran awg wg)) publicKey :=
    fun _ => verifyRuntimePeer_iff_of_le hlen
  simp only [VerifiesPrinted, hverify]
  constructor
  · intro h
    by_cases hprints : ∃ publicKey, Prints (printedText (ran awg wg)) publicKey
    · obtain ⟨publicKey, hprints⟩ := hprints
      exact .inl ((h publicKey).2 hprints).1
    · exact .inr (not_exists.1 hprints)
  · rintro (hsucceeds | hnone) publicKey
    · exact ⟨fun h => h.2, fun h => ⟨hsucceeds, h⟩⟩
    · exact ⟨fun h => h.2, fun h => absurd h (hnone publicKey)⟩

theorem syncsPrinted_of_le {awgQuick wgQuick : Outcome}
    (hlen : (ran awgQuick wgQuick).printed.length ≤ maxOutputChars) :
    SyncsPrinted awgQuick wgQuick := by
  intro written awg wg file h
  obtain ⟨result, hrun, hok, rfl⟩ := syncRuntimeFromConfig_eq_some h
  rw [stdout_of_le hrun hok hlen, strip_strip]

/-! ### Long outputs -/

/-- A command that prints an ASCII text and succeeds. -/
def printing (text : Text) : Outcome :=
  .exited 0 (.ofData (asciiBytes text)) (.ofData [])

@[simp] theorem printed_printing (text : Text) : (printing text).printed = asciiBytes text :=
  Stream.data_ofData _

theorem ran_printing (text : Text) (second : Outcome) : ran (printing text) second = printing text := rfl

theorem printedText_printing {text : Text} (hascii : ∀ c ∈ text, c.toNat < 128) :
    printedText (printing text) = text := by
  rw [printedText, printed_printing, decodeUtf8_asciiBytes hascii]

/-- What the bot sees of a text. -/
def shown (text : Text) : Text := compact (.ofData (asciiBytes text)) maxOutputChars

theorem run_printing (text : Text) :
    ∃ result, run maxOutputChars (printing text) = .ok result ∧ result.ok = true ∧
      result.stdout = shown text :=
  ⟨_, rfl, rfl, rfl⟩

theorem not_mem_shown {text : Text} {c : Char} (hascii : ∀ c ∈ text, c.toNat < 128)
    (hlen : maxOutputChars < text.length) (hc : c ∉ text.take maxOutputChars)
    (hmarker : c ∉ truncationMarker) : c ∉ shown text := by
  intro h
  have hlong : maxOutputChars < (Stream.ofData (asciiBytes text)).data.length := by
    rw [Stream.data_ofData, length_asciiBytes]
    exact hlen
  rcases mem_compact_of_lt hlong h with h | h
  · rw [Stream.data_ofData, take_asciiBytes,
      decodeUtf8_asciiBytes fun d hd => hascii d (List.mem_of_mem_take hd)] at h
    exact hc h
  · exact hmarker h

theorem verifyRuntimePeer_printing {text : Text} {c : Char} (hc : c ∈ publicKey)
    (hshown : c ∉ shown text) : verifyRuntimePeer (printing text) wg publicKey = .ok false := by
  obtain ⟨result, hrun, hok, hstdout⟩ := run_printing text
  rw [verifyRuntimePeer_of_ok (by rw [ran_printing]; exact hrun) hok, Except.ok.injEq,
    List.any_eq_false]
  intro line hline heq
  have hprints : Prints result.stdout publicKey := ⟨line, hline, of_decide_eq_true heq⟩
  rw [prints_iff, hstdout] at hprints
  exact hshown (mem_of_mem_contentLines hprints (List.mem_append_right _ hc))

theorem not_mem_listed {text : Text} {c : Char} (hc : c ∈ publicKey) (hshown : c ∉ shown text)
    {peers : List Options} (h : listRuntimePeers interface (printing text) wg = .ok peers) :
    some publicKey ∉ peers.map (·.get? publicKeyField) := by
  obtain ⟨result, hrun, -, rfl⟩ := listRuntimePeers_eq_ok h
  obtain ⟨result', hrun', -, hstdout⟩ := run_printing text
  rw [ran_printing, hrun'] at hrun
  cases hrun
  rw [hstdout, get?_parseRuntimePeers]
  intro hmem
  obtain ⟨line, hline, hkey⟩ := List.mem_map.1 hmem
  have hkey' : keyOfLine line = publicKey := Option.some.inj hkey
  rw [← hkey'] at hc
  exact hshown (mem_of_mem_contentLines (List.mem_of_mem_filter hline)
    (List.mem_of_mem_drop (mem_of_mem_strip hc)))

/-- A key of the right form. -/
def sampleKey : Text := List.replicate 43 'A' ++ ['=']

/-- An output of `n` bytes: a long line of the interface, and a peer behind it. -/
def longOutput (n : ℕ) : Text :=
  "interface: ".toList ++ List.replicate (n - 62) 'x' ++ '\n' :: (peerPrefix ++ sampleKey)

/-- All of it but the last character of the key. -/
def longOutputFront (n : ℕ) : Text :=
  "interface: ".toList ++ List.replicate (n - 62) 'x' ++ '\n' :: (peerPrefix ++ List.replicate 43 'A')

theorem longOutput_eq (n : ℕ) : longOutput n = longOutputFront n ++ ['='] := by
  unfold longOutput longOutputFront sampleKey
  simp only [List.append_assoc, List.cons_append]

theorem mem_longOutputFront {n : ℕ} {c : Char} (hc : c ∈ longOutputFront n) :
    c ∈ "interface: x\npeer: A".toList := by
  have hlist : c ∈ "interface: ".toList ∨ c = 'x' ∨ c = '\n' ∨ c ∈ peerPrefix ∨ c = 'A' := by
    rcases List.mem_append.1 hc with hc | hc
    · rcases List.mem_append.1 hc with hc | hc
      · exact .inl hc
      · exact .inr (.inl (List.eq_of_mem_replicate hc))
    · rcases List.mem_cons.1 hc with rfl | hc
      · exact .inr (.inr (.inl rfl))
      · rcases List.mem_append.1 hc with hc | hc
        · exact .inr (.inr (.inr (.inl hc)))
        · exact .inr (.inr (.inr (.inr (List.eq_of_mem_replicate hc))))
  have hheader : "interface: ".toList ⊆ "interface: x\npeer: A".toList := by decide +kernel
  have hprefix : peerPrefix ⊆ "interface: x\npeer: A".toList := by decide +kernel
  rcases hlist with hc | rfl | rfl | hc | rfl
  · exact hheader hc
  · decide +kernel
  · decide +kernel
  · exact hprefix hc
  · decide +kernel

theorem length_longOutput {n : ℕ} (hn : 62 ≤ n) : (longOutput n).length = n := by
  have hheader : "interface: ".toList.length = 11 := by decide
  have hprefix : peerPrefix.length = 6 := by decide
  unfold longOutput sampleKey
  rw [List.length_append, List.length_append, List.length_cons, List.length_append,
    List.length_append, List.length_replicate, List.length_replicate, List.length_singleton,
    hheader, hprefix]
  omega

theorem ascii_longOutput (n : ℕ) : ∀ c ∈ longOutput n, c.toNat < 128 := by
  intro c hc
  rw [longOutput_eq] at hc
  have hall : ("interface: x\npeer: A".toList ++ ['=']).all (fun d => d.toNat < 128) = true := by
    decide +kernel
  have hmem : c ∈ "interface: x\npeer: A".toList ++ ['='] :=
    (List.mem_append.1 hc).elim (fun h => List.mem_append_left _ (mem_longOutputFront h))
      (List.mem_append_right _)
  exact of_decide_eq_true (List.all_eq_true.1 hall c hmem)

/-- The last character of the key is behind the cap. -/
theorem not_mem_shown_longOutput {n : ℕ} (hn : maxOutputChars < n) : '=' ∉ shown (longOutput n) := by
  have hlen : (longOutput n).length = n := length_longOutput (le_of_lt (lt_of_le_of_lt (by decide) hn))
  have hfront : (longOutputFront n).length = n - 1 := by
    have h := congrArg List.length (longOutput_eq n)
    rw [hlen, List.length_append, List.length_singleton] at h
    omega
  refine not_mem_shown (ascii_longOutput n) (by rw [hlen]; exact hn) ?_ (by decide)
  rw [longOutput_eq, List.take_append_of_le_length (by omega)]
  intro h
  exact absurd (mem_longOutputFront (List.mem_of_mem_take h)) (by decide)

theorem contentLines_longOutput (n : ℕ) : ∃ header, startsWith peerPrefix header = false ∧
    contentLines (longOutput n) = [header, peerPrefix ++ sampleKey] := by
  have hline : ∀ c ∈ "interface: ".toList ++ List.replicate (n - 62) 'x', isLineBreak c = false := by
    intro c hc
    rcases List.mem_append.1 hc with hc | hc
    · exact forall_mem_of_all (t := "interface: ".toList) (by decide) c hc
    · rw [List.eq_of_mem_replicate hc]
      decide
  obtain ⟨r, hr⟩ : ∃ r, strip ("interface: ".toList ++ List.replicate (n - 62) 'x') = 'i' :: r :=
    strip_cons_of_not_isSpace (by decide) _
  have hpeer : contentLines (peerPrefix ++ sampleKey) = [peerPrefix ++ sampleKey] := by decide
  refine ⟨'i' :: r, rfl, ?_⟩
  unfold longOutput
  rw [contentLines_append_cons (by decide), contentLines_line hline, hr, hpeer]
  rfl

theorem parseRuntimePeers_longOutput (n : ℕ) :
    (parseRuntimePeers (longOutput n)).map (·.get? publicKeyField) = [some sampleKey] := by
  obtain ⟨header, hheader, hlines⟩ := contentLines_longOutput n
  have hkey : keyOfLine (peerPrefix ++ sampleKey) = sampleKey := by decide
  rw [get?_parseRuntimePeers, hlines, List.filter_cons_of_neg (by rw [hheader]; decide),
    List.filter_cons_of_pos (startsWith_append _ _), List.filter_nil, List.map_cons, hkey]
  rfl

/-! ### The cap is the limit -/

theorem not_listsPrinted {n : ℕ} (hn : maxOutputChars < n) (interface : Text) (wg : Outcome) :
    ¬ ListsPrinted interface (printing (longOutput n)) wg := by
  intro h
  obtain ⟨result, hrun, hok, -⟩ := run_printing (longOutput n)
  have hlist : listRuntimePeers interface (printing (longOutput n)) wg =
      .ok (parseRuntimePeers result.stdout) :=
    listRuntimePeers_of_ok (by rw [ran_printing]; exact hrun) hok
  have hmem : some sampleKey ∉ (parseRuntimePeers result.stdout).map (·.get? publicKeyField) :=
    not_mem_listed (List.mem_append_right _ List.mem_cons_self) (not_mem_shown_longOutput hn) hlist
  rw [h _ hlist, ran_printing, printedText_printing (ascii_longOutput n),
    parseRuntimePeers_longOutput] at hmem
  exact hmem List.mem_cons_self

theorem not_verifiesPrinted {n : ℕ} (hn : maxOutputChars < n) (wg : Outcome) :
    ¬ VerifiesPrinted (printing (longOutput n)) wg := by
  intro h
  obtain ⟨header, -, hlines⟩ := contentLines_longOutput n
  have hprints : Prints (longOutput n) sampleKey := by
    rw [prints_iff, hlines]
    exact List.mem_cons_of_mem _ List.mem_cons_self
  have hverify := (h sampleKey).2 (by
    rw [ran_printing, printedText_printing (ascii_longOutput n)]
    exact hprints)
  have hkey : '=' ∈ sampleKey := List.mem_append_right _ List.mem_cons_self
  rw [verifyRuntimePeer_printing hkey (not_mem_shown_longOutput hn)] at hverify
  cases hverify

theorem not_syncsPrinted {n : ℕ} (hn : maxOutputChars < n) (wgQuick : Outcome) :
    ¬ SyncsPrinted (printing (longOutput n)) wgQuick := by
  intro h
  have hfile := h true .missing .missing (shown (longOutput n)) rfl
  rw [ran_printing, printedText_printing (ascii_longOutput n)] at hfile
  have hlong : maxOutputChars < (Stream.ofData (asciiBytes (longOutput n))).data.length := by
    rw [Stream.data_ofData, length_asciiBytes,
      length_longOutput (le_of_lt (lt_of_le_of_lt (by decide) hn))]
    exact hn
  have hmarker : '[' ∈ strip (shown (longOutput n)) := by
    refine mem_strip_of_mem ?_ (by decide)
    unfold shown
    rw [compact_of_lt hlong]
    exact List.mem_append_right _ (by decide)
  rw [hfile] at hmarker
  have hmem := mem_of_mem_strip hmarker
  rw [longOutput_eq] at hmem
  rcases List.mem_append.1 hmem with hmem | hmem
  · exact absurd (mem_longOutputFront hmem) (by decide)
  · exact absurd hmem (by decide)

/-- **Up to 4096 bytes, and no further, the peers survive the cap.**  For outputs of `n` bytes: the listed
peers are the printed ones, a peer is verified exactly when it was printed (up to a command that fails after
it has printed a peer, which verifies none), and `syncconf` is given the stripped config; each of the three
holds of every output of that length exactly when the length is within the cap. -/
theorem peer_data_survives_iff (n : ℕ) :
    ((∀ interface awg wg, (ran awg wg).printed.length = n → ListsPrinted interface awg wg) ↔
        n ≤ maxOutputChars) ∧
      ((∀ awg wg, (ran awg wg).printed.length = n → (VerifiesPrinted awg wg ↔
          (ran awg wg).Succeeds ∨ ∀ publicKey, ¬ Prints (printedText (ran awg wg)) publicKey)) ↔
        n ≤ maxOutputChars) ∧
      ((∀ awgQuick wgQuick, (ran awgQuick wgQuick).printed.length = n →
          SyncsPrinted awgQuick wgQuick) ↔ n ≤ maxOutputChars) := by
  have hlong : maxOutputChars < n →
      (ran (printing (longOutput n)) .missing).printed.length = n := by
    intro hn
    rw [ran_printing, printed_printing, length_asciiBytes]
    exact length_longOutput (le_of_lt (lt_of_le_of_lt (by decide) hn))
  refine ⟨⟨fun h => ?_, fun hn interface awg wg hlen => listsPrinted_of_le (by rwa [hlen])⟩,
    ⟨fun h => ?_, fun hn awg wg hlen => verifiesPrinted_iff_of_le (by rwa [hlen])⟩,
    ⟨fun h => ?_, fun hn awgQuick wgQuick hlen => syncsPrinted_of_le (by rwa [hlen])⟩⟩
  · by_contra hn
    exact not_listsPrinted (not_le.1 hn) [] .missing (h _ _ _ (hlong (not_le.1 hn)))
  · by_contra hn
    exact not_verifiesPrinted (not_le.1 hn) .missing
      ((h _ _ (hlong (not_le.1 hn))).2 (.inl rfl))
  · by_contra hn
    exact not_syncsPrinted (not_le.1 hn) .missing (h _ _ (hlong (not_le.1 hn)))

/-! ### An interface with sixty-one peers -/

/-- What `awg show` prints about a peer, from the line break in front of it on. -/
def peerBlock (publicKey : Text) (host : ℕ) : Text :=
  '\n' :: (peerPrefix ++ publicKey ++ '\n' :: ("  allowed ips: 10.8.0.".toList ++ natText host ++
    "/32\n".toList))

/-- The peers that fill the cap. -/
def sixtyPeers : Text :=
  "interface: awg0\n".toList ++ (List.range 60).flatMap fun i =>
    peerBlock (natText (100 + i) ++ List.replicate 40 'A' ++ ['=']) (i + 2)

/-- The key of the peer behind them. -/
def lastKey : Text := "ZZZ".toList ++ List.replicate 40 'A' ++ ['=']

/-- **The last peer is taken to be absent.**  The command succeeds and prints it; it is not listed, and it
is not verified. -/
theorem last_peer_absent : ∃ text, text = sixtyPeers ++ peerBlock lastKey 62 ∧
    (printing text).Succeeds ∧ Prints (printedText (printing text)) lastKey ∧
    verifyRuntimePeer (printing text) .missing lastKey = .ok false ∧
    ∃ peers, listRuntimePeers "awg0".toList (printing text) .missing = .ok peers ∧
      some lastKey ∉ peers.map (·.get? publicKeyField) := by
  have hascii : ∀ c ∈ sixtyPeers ++ peerBlock lastKey 62, c.toNat < 128 := by
    have hall : (sixtyPeers ++ peerBlock lastKey 62).all (fun c => c.toNat < 128) = true := by
      decide +kernel
    exact fun c hc => of_decide_eq_true (List.all_eq_true.1 hall c hc)
  have hfull : maxOutputChars ≤ sixtyPeers.length := by decide +kernel
  have hfresh : 'Z' ∉ sixtyPeers := by decide +kernel
  have hlast : 'Z' ∈ lastKey := by decide
  have hlen : maxOutputChars < (sixtyPeers ++ peerBlock lastKey 62).length := by
    have hblock : 0 < (peerBlock lastKey 62).length := by decide
    rw [List.length_append]
    omega
  have hshown : 'Z' ∉ shown (sixtyPeers ++ peerBlock lastKey 62) := by
    refine not_mem_shown hascii hlen ?_ (by decide)
    rw [List.take_append_of_le_length hfull]
    exact fun h => hfresh (List.mem_of_mem_take h)
  have hprints : Prints (sixtyPeers ++ peerBlock lastKey 62) lastKey := by
    have hline : contentLines (peerPrefix ++ lastKey) = [peerPrefix ++ lastKey] := by decide
    rw [prints_iff, peerBlock, contentLines_append_cons (by decide),
      contentLines_append_cons (by decide), hline]
    exact List.mem_append_right _ List.mem_cons_self
  obtain ⟨result, hrun, hok, -⟩ := run_printing (sixtyPeers ++ peerBlock lastKey 62)
  have hlist : listRuntimePeers "awg0".toList (printing (sixtyPeers ++ peerBlock lastKey 62)) .missing =
      .ok (parseRuntimePeers result.stdout) :=
    listRuntimePeers_of_ok (by rw [ran_printing]; exact hrun) hok
  refine ⟨_, rfl, rfl, ?_, verifyRuntimePeer_printing hlast hshown, _, hlist,
    not_mem_listed hlast hshown hlist⟩
  rw [printedText_printing hascii]
  exact hprints

end VpnBot.Awg
