import VpnBot.Warp.FeedFetch

/-!
# The cached body and the stored validators

A 304 is answered to the validators in the row with the body in the file, so the two have to belong to
one document.  `fetch` writes the body before it is parsed; the validators are recorded after.
`InOrder` says that no refresh ends between the two, and that none records validators over the body of
another document; runs in order keep source and server in step (`feed_inStep`), and a single document
that does not parse is enough to part them (`not_feed_inStep`).
-/

namespace VpnBot.Warp

open Py Sys

/-! ### Documents and validators -/

/-- The validators of a document are those of no document with another body. -/
def Identifies (docs : Document → Prop) : Prop :=
  ∀ doc doc', docs doc → docs doc' → doc.validators.headers.matches doc' = true →
    doc.body = doc'.body

/-- The file reads as the body of every document with the validators. -/
def Agrees (docs : Document → Prop) (v : Validators) (text : Text) : Prop :=
  ∀ doc, docs doc → v.headers.matches doc = true → doc.body = some (universalNewlines text)

theorem matches_none (doc : Document) : Validators.none.matches doc = false := rfl

theorem agrees_none {docs : Document → Prop} (text : Text) : Agrees docs .none text :=
  fun doc _ hmatch => nomatch (matches_none doc).symm.trans hmatch

theorem Identifies.agrees {docs : Document → Prop} (h : Identifies docs) {doc : Document}
    (hdoc : docs doc) {text : Text} (hbody : doc.body = some text)
    (hlines : universalNewlines text = text) : Agrees docs doc.validators text := by
  intro doc' hdoc' hmatch
  rw [hlines, ← hbody]
  exact (h doc doc' hdoc hdoc' hmatch).symm

/-- The document can be used: its body is not blank and parses. -/
structure WellFormed (parse : Text → Option (List Text)) (doc : Document) : Prop where
  usable : ∃ text, doc.body = some text ∧ (strip text).isEmpty = false ∧ (parse text).isSome = true

/-! ### Source and server in step -/

variable {parse : Text → Option (List Text)} {docs : Document → Prop} {s s' : FeedState}

/-- A refresh that the server answers and that no failure of the database interrupts. -/
def reaching (response : Response) (replaced : Bool) : List FeedAction :=
  match response with
  | .ok => [.call, .returns, .returns, .respond .ok, .write replaced, .returns, .returns, .returns]
  | response => [.call, .returns, .returns, .respond response, .returns, .returns, .returns]

/-- The answer brings the document: a 200, or a 304 that the server may give. -/
def Brings (s : FeedState) (response : Response) : Prop :=
  response = .ok ∨ response = .notModified ∧
    (requestHeaders (readCache s.cache) s.validators).matches s.server = true

/-- A 304 returns the document of the server; a success has stored the prefixes of the document that the
server was serving; and a refresh that reaches a well-formed document succeeds. -/
structure InStep (parse : Text → Option (List Text)) (s : FeedState) : Prop where
  notModified : ∀ v cached, s.pc = .waiting v cached →
    (requestHeaders cached v).matches s.server = true →
      ∃ text, cached = some text ∧ s.server.body = some text
  stored : ∀ served, s.finished = some (.succeeded served) →
    ∃ text, served.body = some text ∧ parse text = some s.prefixes
  recovers : s.pc = .idle → WellFormed parse s.server → ∀ response replaced, Brings s response →
    ∃ s', runFrom (feedStep parse) s (reaching response replaced) = some s' ∧
      s'.finished = some (.succeeded s.server)

/-! ### Runs in order -/

/-- What a refresh has fetched and not yet recorded. -/
def FeedPc.fetched : FeedPc → Option Fetched
  | .parsing fetched | .replacing fetched _ | .stamping fetched _ => some fetched
  | .idle | .attempting _ | .requesting _ | .waiting .. | .writing _ | .failing _ => none

/-- The refresh ends without `record_success`. -/
def Interrupts (parse : Text → Option (List Text)) (fetched : Fetched) (s : FeedState) :
    FeedAction → Prop
  | .die | .raises => True
  | .returns => s.pc = .parsing fetched ∧ parse fetched.payload.text = none
  | .publish _ | .call | .respond _ | .write _ => False

/-- The server publishes documents that their validators identify; a refresh that has replaced the file
goes on to `record_success`, unless the row has no validators of another document; and
`record_success` follows a body that was written and has no carriage return, unless the file agrees with
the new validators all the same. -/
structure InOrder (parse : Text → Option (List Text)) (docs : Document → Prop) (s : FeedState)
    (a : FeedAction) : Prop where
  published : ∀ doc, a = .publish doc → docs doc
  recorded : ∀ fetched, s.pc.fetched = some fetched → fetched.written = true →
    Interrupts parse fetched s a → Agrees docs s.validators fetched.payload.text
  replaced : ∀ fetched prefixes, s.pc = .stamping fetched prefixes → a = .returns →
    fetched.payload.status = .ok →
      fetched.written = true ∧ universalNewlines fetched.payload.text = fetched.payload.text ∨
        ∀ text, s.cache = some text → Agrees docs fetched.payload.validators text

/-! ### The invariant -/

/-- The file agrees with the validators of the row. -/
def Synced (docs : Document → Prop) (s : FeedState) : Prop :=
  ∀ text, s.cache = some text → Agrees docs s.validators text

/-- What a payload is: the body of the document that was served, with its validators if it was
downloaded, and with those of the row if it was cached. -/
structure Genuine (docs : Document → Prop) (s : FeedState) (fetched : Fetched) : Prop where
  served : docs fetched.served
  body : fetched.served.body = some fetched.payload.text
  downloaded : fetched.payload.status = .ok →
    fetched.payload.validators = fetched.served.validators
  cached : fetched.payload.status = .notModified →
    fetched.payload.validators = s.validators ∧ fetched.written = false
  file : if fetched.written then s.cache = some fetched.payload.text else Synced docs s

/-- What holds at each place of a refresh. -/
def Place (parse : Text → Option (List Text)) (docs : Document → Prop) (s : FeedState) :
    FeedPc → Prop
  | .idle => Synced docs s
  | .attempting v | .requesting v => Synced docs s ∧ v = s.validators
  | .waiting v cached => Synced docs s ∧ v = s.validators ∧ cached = readCache s.cache
  | .writing fetched => Genuine docs s fetched ∧ fetched.written = false ∧
      fetched.payload.status = .ok
  | .parsing fetched => Genuine docs s fetched
  | .replacing fetched prefixes =>
    Genuine docs s fetched ∧ parse fetched.payload.text = some prefixes
  | .stamping fetched prefixes =>
    Genuine docs s fetched ∧ parse fetched.payload.text = some prefixes ∧ s.prefixes = prefixes
  | .failing _ => Synced docs s

/-- The invariant of the runs in order. -/
structure FeedInv (parse : Text → Option (List Text)) (docs : Document → Prop) (s : FeedState) :
    Prop where
  server : docs s.server
  place : Place parse docs s s.pc
  stored : ∀ served, s.finished = some (.succeeded served) →
    ∃ text, served.body = some text ∧ parse text = some s.prefixes
  running : s.pc ≠ .idle → s.finished = none

variable {fetched : Fetched}

theorem Synced.notModified (h : Synced docs s) (hserver : docs s.server) {v : Validators}
    (hv : v = s.validators) {cached : Option Text} (hcached : cached = readCache s.cache)
    (hmatch : (requestHeaders cached v).matches s.server = true) :
    ∃ text, cached = some text ∧ s.server.body = some text := by
  subst hv hcached
  unfold requestHeaders at hmatch
  cases hcache : s.cache with
  | none =>
    rw [hcache] at hmatch
    cases hmatch
  | some text =>
    rw [hcache] at hmatch
    exact ⟨universalNewlines text, rfl, h text hcache s.server hserver hmatch⟩

theorem Genuine.synced (h : Genuine docs s fetched) (hwritten : fetched.written = false) :
    Synced docs s := by
  have hfile := h.file
  rw [hwritten] at hfile
  exact hfile

/-- A refresh that is interrupted in order leaves the file and the validators in agreement. -/
theorem Genuine.synced_of_inOrder (h : Genuine docs s fetched)
    (horder : fetched.written = true → Agrees docs s.validators fetched.payload.text) :
    Synced docs s := by
  cases hwritten : fetched.written with
  | false => exact h.synced hwritten
  | true =>
    have hfile := h.file
    rw [hwritten] at hfile
    intro text htext
    rw [Option.some.inj (htext.symm.trans hfile)]
    exact horder hwritten

theorem Place.publish (doc : Document) {pc : FeedPc} (h : Place parse docs s pc) :
    Place parse docs { s with server := doc } pc := by
  have hgenuine : ∀ {fetched}, Genuine docs s fetched →
      Genuine docs { s with server := doc } fetched :=
    fun h => ⟨h.served, h.body, h.downloaded, h.cached, h.file⟩
  cases pc with
  | idle | attempting v | requesting v | waiting v cached | failing served => exact h
  | writing fetched => exact ⟨hgenuine h.1, h.2⟩
  | parsing fetched => exact hgenuine h
  | replacing fetched prefixes => exact ⟨hgenuine h.1, h.2⟩
  | stamping fetched prefixes => exact ⟨hgenuine h.1, h.2⟩

theorem FeedInv.answered (h : FeedInv parse docs s) {v : Validators} {cached : Option Text}
    (hpc : s.pc = .waiting v cached) {response : Response} {pc : FeedPc}
    (hpc' : answered s.server v cached response = some pc) :
    Place parse docs { s with pc := pc } pc := by
  have hplace := h.place
  rw [hpc] at hplace
  obtain ⟨hsynced, hv, hcached⟩ := hplace
  cases response with
  | failed =>
    cases hpc'
    exact hsynced
  | notModified =>
    unfold VpnBot.Warp.answered at hpc'
    dsimp only at hpc'
    split_ifs at hpc' with hmatch
    obtain ⟨text, htext, hbody⟩ := hsynced.notModified h.server hv hcached hmatch
    rw [htext] at hpc'
    cases hpc'
    exact ⟨h.server, hbody, nofun, fun _ => ⟨hv, rfl⟩, hsynced⟩
  | ok =>
    unfold VpnBot.Warp.answered at hpc'
    dsimp only at hpc'
    cases hbody : s.server.body with
    | none =>
      rw [hbody] at hpc'
      cases hpc'
      exact hsynced
    | some text =>
      rw [hbody] at hpc'
      dsimp only at hpc'
      split_ifs at hpc'
      · cases hpc'
        exact hsynced
      · cases hpc'
        exact ⟨⟨h.server, hbody, fun _ => rfl, nofun, hsynced⟩, rfl, rfl⟩

theorem Genuine.synced_stamped (hident : Identifies docs) (h : Genuine docs s fetched)
    (horder : fetched.payload.status = .ok →
      fetched.written = true ∧ universalNewlines fetched.payload.text = fetched.payload.text ∨
        ∀ text, s.cache = some text → Agrees docs fetched.payload.validators text) :
    ∀ text, s.cache = some text → Agrees docs fetched.payload.validators text := by
  cases hstatus : fetched.payload.status with
  | notModified =>
    obtain ⟨hvalidators, hwritten⟩ := h.cached hstatus
    rw [hvalidators]
    exact h.synced hwritten
  | ok =>
    rcases horder hstatus with ⟨hwritten, hlines⟩ | hagrees
    · intro text htext
      have hfile := h.file
      rw [hwritten] at hfile
      rw [Option.some.inj (htext.symm.trans hfile), h.downloaded hstatus]
      exact hident.agrees h.served h.body hlines
    · exact hagrees

/-- The refresh goes on. -/
theorem FeedInv.returns (hident : Identifies docs) (h : FeedInv parse docs s)
    (horder : InOrder parse docs s .returns) (hstep : feedStep parse s .returns = some s') :
    FeedInv parse docs s' := by
  have hplace := h.place
  rw [feedStep] at hstep
  cases hpc : s.pc with
  | idle | waiting v cached | writing fetched =>
    rw [hpc] at hstep
    cases hstep
  | attempting v =>
    have hfinished := h.running (by rw [hpc]; nofun)
    rw [hpc] at hstep hplace
    cases hstep
    exact ⟨h.server, hplace, h.stored, fun _ => hfinished⟩
  | requesting v =>
    have hfinished := h.running (by rw [hpc]; nofun)
    rw [hpc] at hstep hplace
    cases hstep
    exact ⟨h.server, ⟨hplace.1, hplace.2, rfl⟩, h.stored, fun _ => hfinished⟩
  | parsing fetched =>
    have hfinished := h.running (by rw [hpc]; nofun)
    rw [hpc] at hstep hplace
    dsimp only at hstep
    cases hparse : parse fetched.payload.text with
    | none =>
      rw [hparse] at hstep
      cases hstep
      refine ⟨h.server, ?_, h.stored, fun _ => hfinished⟩
      exact hplace.synced_of_inOrder fun hwritten =>
        horder.recorded fetched (by rw [hpc]; rfl) hwritten ⟨hpc, hparse⟩
    | some prefixes =>
      rw [hparse] at hstep
      cases hstep
      refine ⟨h.server, ⟨?_, hparse⟩, h.stored, fun _ => hfinished⟩
      exact ⟨hplace.served, hplace.body, hplace.downloaded, hplace.cached, hplace.file⟩
  | replacing fetched prefixes =>
    have hfinished := h.running (by rw [hpc]; nofun)
    rw [hpc] at hstep hplace
    cases hstep
    obtain ⟨hgenuine, hparse⟩ := hplace
    refine ⟨h.server, ⟨?_, hparse, rfl⟩, fun served hserved => ?_, fun _ => hfinished⟩
    · exact ⟨hgenuine.served, hgenuine.body, hgenuine.downloaded, hgenuine.cached, hgenuine.file⟩
    · cases hfinished.symm.trans hserved
  | stamping fetched prefixes =>
    rw [hpc] at hstep hplace
    cases hstep
    obtain ⟨hgenuine, hparse, hprefixes⟩ := hplace
    refine ⟨h.server, ?_, fun served hserved => ?_, fun hne => absurd rfl hne⟩
    · have hsynced := hgenuine.synced_stamped hident (horder.replaced fetched prefixes hpc rfl)
      exact hsynced
    · cases hserved
      exact ⟨fetched.payload.text, hgenuine.body, hprefixes ▸ hparse⟩
  | failing served =>
    rw [hpc] at hstep hplace
    cases hstep
    exact ⟨h.server, hplace, fun served hserved => (nomatch hserved), fun hne => absurd rfl hne⟩

theorem FeedInv.synced (h : FeedInv parse docs s) {a : FeedAction} (ha : a = .die ∨ a = .raises)
    (horder : InOrder parse docs s a) : Synced docs s := by
  have hinterrupts : ∀ fetched, Interrupts parse fetched s a := by
    rintro fetched
    rcases ha with rfl | rfl <;> trivial
  have hrecorded : ∀ fetched, s.pc.fetched = some fetched → fetched.written = true →
      Agrees docs s.validators fetched.payload.text :=
    fun fetched hfetched hwritten => horder.recorded fetched hfetched hwritten (hinterrupts fetched)
  have hplace := h.place
  cases hpc : s.pc with
  | idle | failing served =>
    rw [hpc] at hplace
    exact hplace
  | attempting v | requesting v | waiting v cached =>
    rw [hpc] at hplace
    exact hplace.1
  | writing fetched =>
    rw [hpc] at hplace
    exact hplace.1.synced hplace.2.1
  | parsing fetched =>
    rw [hpc] at hplace
    exact hplace.synced_of_inOrder (hrecorded fetched (by rw [hpc]; rfl))
  | replacing fetched prefixes | stamping fetched prefixes =>
    rw [hpc] at hplace
    exact hplace.1.synced_of_inOrder (hrecorded fetched (by rw [hpc]; rfl))

/-- **A step in order keeps the invariant.** -/
theorem FeedInv.step (hident : Identifies docs) (h : FeedInv parse docs s) {a : FeedAction}
    (horder : InOrder parse docs s a) (hstep : feedStep parse s a = some s') :
    FeedInv parse docs s' := by
  cases a with
  | publish doc =>
    cases hstep
    exact ⟨horder.published doc rfl, h.place.publish doc, h.stored, h.running⟩
  | call =>
    rw [feedStep] at hstep
    cases hpc : s.pc <;> rw [hpc] at hstep <;> cases hstep
    have hplace := h.place
    rw [hpc] at hplace
    exact ⟨h.server, ⟨hplace, rfl⟩, fun served hserved => (nomatch hserved), fun _ => rfl⟩
  | respond response =>
    rw [feedStep] at hstep
    cases hpc : s.pc <;> rw [hpc] at hstep <;> try cases hstep
    obtain ⟨pc, hpc', rfl⟩ := Option.map_eq_some_iff.1 hstep
    exact ⟨h.server, h.answered hpc hpc', h.stored, fun _ => h.running (by rw [hpc]; nofun)⟩
  | write replaced =>
    rw [feedStep] at hstep
    cases hpc : s.pc <;> rw [hpc] at hstep <;> cases hstep
    rename_i fetched
    have hplace := h.place
    rw [hpc] at hplace
    obtain ⟨hgenuine, hwritten, hstatus⟩ := hplace
    refine ⟨h.server, ?_, h.stored, fun _ => h.running (by rw [hpc]; nofun)⟩
    refine ⟨hgenuine.served, hgenuine.body, hgenuine.downloaded, fun hstatus' => ?_, ?_⟩
    · cases hstatus.symm.trans hstatus'
    · cases replaced with
      | false => exact hgenuine.synced hwritten
      | true => rfl
  | returns => exact h.returns hident horder hstep
  | raises =>
    have hsynced := h.synced (Or.inr rfl) horder
    rw [feedStep] at hstep
    have hfinished : s.pc ≠ .idle → s.finished = none := h.running
    cases hpc : s.pc <;> rw [hpc] at hstep <;> cases hstep
    all_goals exact ⟨h.server, hsynced, h.stored, fun hne => absurd rfl hne⟩
  | die =>
    have hsynced := h.synced (Or.inl rfl) horder
    cases hstep
    exact ⟨h.server, hsynced, fun served hserved => (nomatch hserved), fun hne => absurd rfl hne⟩

/-! ### Runs in order keep in step -/

theorem answered_ok {server : Document} {text : Text} (hbody : server.body = some text)
    (hblank : (strip text).isEmpty = false) (v : Validators) (cached : Option Text) :
    answered server v cached .ok =
      some (.writing ⟨⟨text, server.validators, .ok⟩, server, false⟩) := by
  unfold answered
  simp [hbody, hblank]

theorem answered_notModified {server : Document} {v : Validators} {text : Text}
    (hmatch : (requestHeaders (some text) v).matches server = true) :
    answered server v (some text) .notModified =
      some (.parsing ⟨⟨text, v, .notModified⟩, server, false⟩) := by
  unfold answered
  simp [hmatch]

theorem FeedInv.recovers (h : FeedInv parse docs s) (hpc : s.pc = .idle)
    (hformed : WellFormed parse s.server) {response : Response} (replaced : Bool)
    (hbrings : Brings s response) :
    ∃ s', runFrom (feedStep parse) s (reaching response replaced) = some s' ∧
      s'.finished = some (.succeeded s.server) := by
  obtain ⟨text, hbody, hblank, hparses⟩ := hformed.usable
  obtain ⟨prefixes, hparse⟩ := Option.isSome_iff_exists.1 hparses
  have hplace := h.place
  rw [hpc] at hplace
  refine Option.map_eq_some_iff.1 ?_
  rcases hbrings with rfl | ⟨rfl, hmatch⟩
  · simp [reaching, runFrom, feedStep, hpc, answered_ok hbody hblank, hparse]
  · obtain ⟨cached, hcached, hsame⟩ := hplace.notModified h.server rfl rfl hmatch
    have htext : cached = text := Option.some.inj (hsame.symm.trans hbody)
    rw [htext] at hcached
    rw [hcached] at hmatch
    simp [reaching, runFrom, feedStep, hpc, hcached, answered_notModified hmatch, hparse]

/-- A source that has just been added: it has no validators, and perhaps a file of an older one. -/
structure NewSource (docs : Document → Prop) (s : FeedState) : Prop where
  server : docs s.server
  validators : s.validators = .none
  finished : s.finished = none
  pc : s.pc = .idle

theorem feedInv_of_newSource (h : NewSource docs s) : FeedInv parse docs s where
  server := h.server
  place := by
    rw [h.pc]
    intro text _
    rw [h.validators]
    exact agrees_none text
  stored served hserved := by cases h.finished.symm.trans hserved
  running hne := absurd h.pc hne

/-- **In every run in order the source stays in step with the server**: a 304 returns the document of
the server, a success has stored the prefixes of the document that was served, and a refresh that
reaches a well-formed document succeeds. -/
theorem feed_inStep (parse : Text → Option (List Text)) {docs : Document → Prop}
    (hident : Identifies docs) {start s : FeedState} {actions : List FeedAction}
    (hstart : NewSource docs start)
    (horder : Allowed (feedStep parse) (InOrder parse docs) start actions)
    (hrun : runFrom (feedStep parse) start actions = some s) : InStep parse s := by
  have hstep : ∀ m a m', FeedInv parse docs m → InOrder parse docs m a →
      feedStep parse m a = some m' → FeedInv parse docs m' :=
    fun m a m' h ha hm => h.step hident ha hm
  have h := invariant_of_allowed hstep (feedInv_of_newSource hstart) horder hrun
  refine ⟨fun v cached hpc hmatch => ?_, h.stored, fun hpc hformed response replaced hbrings => ?_⟩
  · have hplace := h.place
    rw [hpc] at hplace
    exact hplace.1.notModified h.server hplace.2.1 hplace.2.2 hmatch
  · exact h.recovers hpc hformed replaced hbrings

/-- A step that publishes nothing and fails nowhere: what was downloaded parses, and is recorded after
it was written, without carriage returns. -/
def quiet (parse : Text → Option (List Text)) (s : FeedState) : FeedAction → Bool
  | .publish _ | .die | .raises => false
  | .returns =>
    match s.pc with
    | .parsing fetched => (parse fetched.payload.text).isSome
    | .stamping fetched _ => fetched.payload.status = .notModified ||
        fetched.written && universalNewlines fetched.payload.text = fetched.payload.text
    | _ => true
  | .call | .respond _ | .write _ => true

theorem inOrder_of_quiet {a : FeedAction} (h : quiet parse s a = true) : InOrder parse docs s a where
  published doc ha := by
    subst ha
    cases h
  recorded fetched _ _ hinterrupts := by
    cases a with
    | returns =>
      obtain ⟨hpc, hparse⟩ := hinterrupts
      simp [quiet, hpc, hparse] at h
    | die | raises => cases h
    | publish | call | respond | write => cases hinterrupts
  replaced fetched prefixes hpc ha hstatus := by
    subst ha
    simp only [quiet, hpc, hstatus, reduceCtorEq, decide_false, Bool.false_or, Bool.and_eq_true,
      decide_eq_true_eq] at h
    exact Or.inl h

/-! ### A document that does not parse -/

/-- A text feed with one prefix. -/
def goodDocument : Document := ⟨some "8.8.8.0/24\n".toList, ⟨some "a".toList, none⟩⟩

/-- A page that stands there for a while. -/
def brokenDocument : Document := ⟨some "maintenance\n".toList, ⟨some "b".toList, none⟩⟩

def twoDocuments (doc : Document) : Prop := doc = goodDocument ∨ doc = brokenDocument

/-- A new source, its server with the good document. -/
def newSource : FeedState := ⟨goodDocument, none, .none, [], none, .idle⟩

/-- Two refreshes of the good document: a download and a 304. -/
def twoRefreshes : List FeedAction :=
  reaching .ok true ++ [.call, .returns, .returns]

/-- The broken document is downloaded between two refreshes of the good one. -/
def brokenBetween : List FeedAction :=
  reaching .ok true ++ [.publish brokenDocument, .call, .returns, .returns, .respond .ok,
    .write true, .returns, .returns, .publish goodDocument, .call, .returns, .returns]

theorem identifies_twoDocuments : Identifies twoDocuments := by
  rintro doc doc' (rfl | rfl) (rfl | rfl) hmatch
  · rfl
  · cases hmatch
  · cases hmatch
  · rfl

theorem newSource_newSource : NewSource twoDocuments newSource := ⟨Or.inl rfl, rfl, rfl, rfl⟩

/-- The 304 of the second refresh returns the document. -/
theorem feed_inStep_twoRefreshes :
    ∃ s, runFrom (feedStep parseCidrText) newSource twoRefreshes = some s ∧
      (∃ v, s.pc = .waiting v goodDocument.body) ∧ InStep parseCidrText s := by
  have hquiet : Allowed (feedStep parseCidrText) (fun s a => quiet parseCidrText s a = true) newSource
      twoRefreshes := by decide +kernel
  have hplace : (runFrom (feedStep parseCidrText) newSource twoRefreshes).map FeedState.pc =
      some (.waiting goodDocument.validators goodDocument.body) := by decide +kernel
  obtain ⟨s, hrun, hpc⟩ := Option.map_eq_some_iff.1 hplace
  exact ⟨s, hrun, ⟨_, hpc⟩, feed_inStep parseCidrText identifies_twoDocuments newSource_newSource
    (hquiet.mono fun _ _ => inOrder_of_quiet) hrun⟩

/-- **A body is cached before it is parsed**: when the good document is back, the 304 to its validators
returns the broken one. -/
theorem not_feed_inStep :
    ¬ ∀ actions s, (∀ doc, .publish doc ∈ actions → twoDocuments doc) →
      runFrom (feedStep parseCidrText) newSource actions = some s → InStep parseCidrText s := by
  intro hclaim
  have hplace : (runFrom (feedStep parseCidrText) newSource brokenBetween).map
      (fun s => (s.pc, s.server)) =
        some (.waiting goodDocument.validators brokenDocument.body, goodDocument) := by
    decide +kernel
  obtain ⟨s, hrun, hs⟩ := Option.map_eq_some_iff.1 hplace
  obtain ⟨hpc, hserver⟩ := Prod.mk.inj hs
  have hpublished : ∀ doc, FeedAction.publish doc ∈ brokenBetween → twoDocuments doc := by
    intro doc hdoc
    simp [brokenBetween, reaching] at hdoc
    exact hdoc.symm
  obtain ⟨text, hcached, hbody⟩ := (hclaim brokenBetween s hpublished hrun).notModified _ _ hpc
    (by rw [hserver]; rfl)
  rw [hserver, ← hcached] at hbody
  exact absurd hbody (by decide)

end VpnBot.Warp
