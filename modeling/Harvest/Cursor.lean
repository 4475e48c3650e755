import Harvest.Page
import Harvest.Request
import Harvest.Settings
import Harvest.Source

/-!
Records one by one out of the pages of a list. The cursor asks for a page when it has run out of
records. A page without records, for whatever reason, is asked for once more in another way: as the
list of what changed since the last record handed out. If there was no such record, or this page has
no records either, the list ends with an error. Once it has ended or was aborted nothing more comes.
-/
namespace Harvest

/-- The list of records a harvest asks for. -/
structure ListQuery where
  hostUrl : String
  metadataPrefix : String
  since : Option String := none
  upTo : Option String := none
  set : Option String := none
deriving DecidableEq, Repr

namespace ListQuery

def ofSettings (c : Settings) : Except Error ListQuery :=
  match c.chosenHost?, c.chosenPrefix? with
  | none, _ => .error (.settings "No host URL configured" [])
  | some _, none => .error (.settings "No metadata prefix configured" [])
  | some hostUrl, some metadataPrefix =>
    .ok { hostUrl, metadataPrefix, since := c.since, upTo := c.upTo, set := c.set }

/-- The first page of what changed since some date. -/
def urlSince (q : ListQuery) (since : Option String) : String :=
  Request.listRecords q.hostUrl since q.upTo q.set q.metadataPrefix

def url (q : ListQuery) : String := q.urlSince q.since

def resumptionUrl (q : ListQuery) (token : String) : String := Request.resumption q.hostUrl token

end ListQuery

structure Cursor where
  query : ListQuery
  /-- The next page to ask for; nothing at the end of the list. -/
  nextUrl : Option String
  /-- The datestamp of the last record handed out that has one. -/
  lastDatestamp : Option String := none
  /-- Records received and not handed out yet. -/
  queue : List Record := []
  pages : Nat := 0
  /-- The size of the list by the first page accepted. -/
  expectedSize : Option Nat := none
  /-- The identifier of the first record received. -/
  version : Option String := none
  finished : Bool := false

/-- The page in an answer, and what to say if it has no records. -/
def Page.ofAnswer (answer : Except Error String) : Page × Shortfall :=
  match answer.bind Page.parse with
  | .ok page =>
    match page.error with
    | some e => (page, .protocolError e.code e.message)
    | none => (page, .noRecords)
  | .error e => ({}, .unavailable e.message)

namespace Cursor

def ofQuery (query : ListQuery) : Cursor := { query, nextUrl := some query.url }

/-- The cursor with the records of a page; the first page sets version and size. -/
def accept (c : Cursor) (page : Page) : Cursor :=
  let c := { c with
    nextUrl := page.nextToken?.map c.query.resumptionUrl,
    queue := c.queue ++ page.records }
  if c.version.isNone then
    { c with
      version := page.records.head?.map Record.identifier,
      expectedSize := page.token.bind (·.completeListSize) }
  else c

def stop (c : Cursor) : Cursor := { c with queue := [], finished := true }

/-- What a cursor does next. -/
inductive Move where
  | answer (record : Option Record) (c : Cursor)
  | ask (url : String) (c : Cursor)

/-- Hands out a record that is there, or names the page to ask for. -/
def move (aborted : Bool) (c : Cursor) : Move :=
  if c.finished then .answer none c
  else if aborted then .answer none c.stop
  else
    match c.queue with
    | r :: rest =>
      .answer (some r) { c with queue := rest, lastDatestamp := r.datestamp.or c.lastDatestamp }
    | [] =>
      match c.nextUrl with
      | some url => .ask url { c with nextUrl := none }
      | none => .answer none { c with finished := true }

variable {σ : Type}

def loadPage (source : Source σ) (url : String) (c : Cursor) (s : Session σ) :
    (Page × Shortfall) × Cursor × Session σ :=
  let (answer, s) := s.request source url
  (Page.ofAnswer answer, { c with pages := c.pages + 1 }, s)

/-- Asks once more, for what changed since the last record handed out. -/
def fetchSince (source : Source σ) (datestamp : String) (c : Cursor) (s : Session σ) :
    Except Error Unit × Cursor × Session σ :=
  let url := c.query.urlSince (some datestamp)
  let ((page, shortfall), c, s) := c.loadPage source url s
  if s.aborted then (.ok (), c, s)
  else if page.records.isEmpty then (.error (.extraction url (some datestamp) shortfall), c, s)
  else (.ok (), c.accept page, s)

/-- Asks for a page. What comes after an abort is not looked at. -/
def fetchPage (source : Source σ) (url : String) (c : Cursor) (s : Session σ) :
    Except Error Unit × Cursor × Session σ :=
  let ((page, shortfall), c, s) := c.loadPage source url s
  if s.aborted then (.ok (), c, s)
  else if !page.records.isEmpty then (.ok (), c.accept page, s)
  else
    match c.lastDatestamp with
    | none => (.error (.extraction url none shortfall), c, s)
    | some datestamp => c.fetchSince source datestamp s

/-- Asks for the first page, unless that has been done. -/
def start (source : Source σ) (c : Cursor) (s : Session σ) :
    Except Error Unit × Cursor × Session σ :=
  if 0 < c.pages || c.finished || s.aborted then (.ok (), c, s)
  else
    match c.nextUrl with
    | none => (.ok (), c, s)
    | some url =>
      match fetchPage source url { c with nextUrl := none } s with
      | (.error e, c, s) => (.error e, { c with finished := true }, s)
      | (.ok (), c, s) => (.ok (), c, s)

/-- The next record, an error, or nothing at the end. A page that was accepted has records, so one
page is enough for an answer. -/
def next (source : Source σ) (c : Cursor) (s : Session σ) :
    Option (Except Error Record) × Cursor × Session σ :=
  match c.move s.aborted with
  | .answer record c => (record.map .ok, c, s)
  | .ask url c =>
    match fetchPage source url c s with
    | (.error e, c, s) => (some (.error e), { c with finished := true }, s)
    | (.ok (), c, s) =>
      match c.move s.aborted with
      | .answer record c => (record.map .ok, c, s)
      | .ask _ c => (none, c.stop, s)

/-- All answers up to the end, at most `limit` of them. -/
def drain (source : Source σ) : Nat → Cursor → Session σ →
    List (Except Error Record) × Cursor × Session σ
  | 0, c, s => ([], c, s)
  | limit + 1, c, s =>
    match next source c s with
    | (none, c, s) => ([], c, s)
    | (some answer, c, s) =>
      let (answers, c, s) := drain source limit c s
      (answer :: answers, c, s)

end Cursor
end Harvest
