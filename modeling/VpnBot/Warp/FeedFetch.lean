import VpnBot.System.Run
import VpnBot.Warp.SplitManager

/-!
# The refresh of one feed

`_refresh_one` of `src/services/warp_split_feeds.py`, with `fetch`, `read_cache` and `_write_cache` of
`src/adapters/warp_feed_fetcher.py`, one step for each place where it can be interrupted.  The body of
a document is kept in a file, the validators that came with it in the row of the source, and the
prefixes in a table of their own.

The server publishes what it likes.  It answers 304 only to the validators of its current document;
any other answer is a 200 with that document, or a failure (another status, a timeout, a broken
connection).  `served` is the document at the time of the answer, which only statements read.

`parse` is `parse_feed` for the kind of the source; `parseCidrText` is the one for text feeds.

Not modelled: the time stamps, the error text and the fail streak of the row, the alerts, and a source
whose URL or slug `fetch` refuses.
-/

namespace VpnBot.Warp

open Py

/-! ### Documents -/

/-- What `read_text` makes of the line ends of a file. -/
def universalNewlines : Text → Text
  | [] => []
  | '\r' :: '\n' :: t => '\n' :: universalNewlines t
  | '\r' :: t => '\n' :: universalNewlines t
  | c :: t => c :: universalNewlines t

theorem splitlines_universalNewlines (t : Text) :
    splitlines (universalNewlines t) = splitlines t := by
  fun_induction universalNewlines t with
  | case1 => rfl
  | case2 t ih => simpa [splitlines, isLineBreak] using ih
  | case3 t hne ih =>
    have hhead : ¬t.head? = some '\n' := by
      intro hhead
      cases t with
      | nil => cases hhead
      | cons c t => exact hne t (by rw [Option.some.inj hhead])
    simp [splitlines, isLineBreak, hhead, ih]
  | case4 c t hne hne' ih =>
    have hreturn : c ≠ '\r' := fun h => hne' h
    simp [splitlines, hreturn, ih]

def beforeMarker (marker : Char) (line : Text) : Text :=
  (splitOnce marker line).elim line Prod.fst

/-- `parse_cidr_text`: the prefixes in their order; `none` is the `EmptyFeedError`. -/
def parseCidrText (payload : Text) : Option (List Text) :=
  let networks := (splitlines payload).filterMap fun raw =>
    ipNetwork (strip (beforeMarker ';' (strip (beforeMarker '#' (strip raw)))))
  if networks.isEmpty then none else some ((sortNetworks networks).map IPv4.text)

/-- An `ETag` and a `Last-Modified`. -/
structure Validators where
  etag : Option Text
  lastModified : Option Text
  deriving DecidableEq

/-- What the server publishes under the URL.  The body is `none` when it is over `max_bytes` or no
UTF-8. -/
structure Document where
  body : Option Text
  validators : Validators
  deriving DecidableEq

def Validators.none : Validators := ⟨Option.none, Option.none⟩

/-- `If-None-Match` and `If-Modified-Since`: an empty validator is not sent. -/
def Validators.headers (v : Validators) : Validators where
  etag := v.etag.filter fun e => !e.isEmpty
  lastModified := v.lastModified.filter fun e => !e.isEmpty

/-- The validators that were sent, at least one, are those of the document. -/
def Validators.matches (sent : Validators) (doc : Document) : Bool :=
  (sent.etag.isSome || sent.lastModified.isSome) &&
    sent.etag.all (fun e => doc.validators.etag = some e) &&
    sent.lastModified.all (fun e => doc.validators.lastModified = some e)

/-! ### A refresh -/

inductive FeedStatus
  | ok
  | notModified
  deriving DecidableEq

/-- `FeedPayload`. -/
structure FeedPayload where
  text : Text
  validators : Validators
  status : FeedStatus
  deriving DecidableEq

/-- A payload, what the server was serving, and whether the body has been written to the cache. -/
structure Fetched where
  payload : FeedPayload
  served : Document
  written : Bool
  deriving DecidableEq

/-- Where the refresh is; `v` are the validators of the row that it has read. -/
inductive FeedPc
  | idle
  /-- In `record_attempt`. -/
  | attempting (v : Validators)
  | requesting (v : Validators)
  | waiting (v : Validators) (cached : Option Text)
  | writing (fetched : Fetched)
  | parsing (fetched : Fetched)
  /-- In `replace_prefixes`. -/
  | replacing (fetched : Fetched) (prefixes : List Text)
  /-- In `record_success`. -/
  | stamping (fetched : Fetched) (prefixes : List Text)
  /-- In `record_failure`, after an answer with a document or without. -/
  | failing (served : Option Document)
  deriving DecidableEq

/-- How a refresh has ended that raised no exception. -/
inductive Finished
  | succeeded (served : Document)
  | failed (served : Option Document)
  deriving DecidableEq

/-- The server, the cache file, the row and the stored prefixes of the source, and the refresh. -/
structure FeedState where
  server : Document
  cache : Option Text
  validators : Validators
  prefixes : List Text
  finished : Option Finished
  pc : FeedPc
  deriving DecidableEq

/-- `read_cache`. -/
def readCache (cache : Option Text) : Option Text := cache.map universalNewlines

/-- The headers of the request: validators are sent only when there is a cached body. -/
def requestHeaders (cached : Option Text) (v : Validators) : Validators :=
  if cached.isSome then v.headers else .none

/-- The answer of the server. -/
inductive Response
  | ok
  | notModified
  | failed
  deriving DecidableEq

/-- `fetch` after the answer; `none` is an answer that the server does not give. -/
def answered (server : Document) (v : Validators) (cached : Option Text) :
    Response → Option FeedPc
  | .failed => some (.failing none)
  | .notModified =>
    if (requestHeaders cached v).matches server then
      match cached with
      | none => some (.failing none)
      | some text => some (.parsing ⟨⟨text, v, .notModified⟩, server, false⟩)
    else none
  | .ok =>
    match server.body with
    | none => some (.failing (some server))
    | some text =>
      if (strip text).isEmpty then some (.failing (some server))
      else some (.writing ⟨⟨text, server.validators, .ok⟩, server, false⟩)

/-- What happens next. -/
inductive FeedAction
  | publish (doc : Document)
  /-- A refresh begins. -/
  | call
  | respond (response : Response)
  /-- `_write_cache` ends, with the file replaced or not. -/
  | write (replaced : Bool)
  /-- The refresh goes on; an awaited statement has returned. -/
  | returns
  /-- The awaited statement raises. -/
  | raises
  /-- The process dies. -/
  | die
  deriving DecidableEq

def feedStep (parse : Text → Option (List Text)) (s : FeedState) : FeedAction → Option FeedState
  | .publish doc => some { s with server := doc }
  | .call =>
    match s.pc with
    | .idle => some { s with finished := none, pc := .attempting s.validators }
    | _ => none
  | .respond response =>
    match s.pc with
    | .waiting v cached =>
      (answered s.server v cached response).map fun pc => { s with pc := pc }
    | _ => none
  | .write replaced =>
    match s.pc with
    | .writing fetched =>
      some { s with
        cache := if replaced then some fetched.payload.text else s.cache
        pc := .parsing { fetched with written := replaced } }
    | _ => none
  | .returns =>
    match s.pc with
    | .attempting v => some { s with pc := .requesting v }
    | .requesting v => some { s with pc := .waiting v (readCache s.cache) }
    | .parsing fetched =>
      match parse fetched.payload.text with
      | none => some { s with pc := .failing (some fetched.served) }
      | some prefixes => some { s with pc := .replacing fetched prefixes }
    | .replacing fetched prefixes =>
      some { s with prefixes := prefixes, pc := .stamping fetched prefixes }
    | .stamping fetched _ =>
      some { s with
        validators := fetched.payload.validators
        finished := some (.succeeded fetched.served)
        pc := .idle }
    | .failing served => some { s with finished := some (.failed served), pc := .idle }
    | .idle | .waiting .. | .writing _ => none
  | .raises =>
    match s.pc with
    | .attempting _ | .replacing .. | .stamping .. | .failing _ => some { s with pc := .idle }
    | .idle | .requesting _ | .waiting .. | .writing _ | .parsing _ => none
  | .die => some { s with finished := none, pc := .idle }

end VpnBot.Warp
