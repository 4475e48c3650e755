import Harvest.Crosswalk
import Harvest.Cursor
import Harvest.Formats
import Harvest.Repository

/-!
The harvest of a repository. A harvester knows the formats and the name of its repository and keeps
the crosswalk of its last run. A run hands every document to a sink as it is made. Records that
cannot be mapped are counted and left out; errors of the list and of the sink end the run.
-/
namespace Harvest

/-- What a run has done. -/
structure Report where
  documents : Nat := 0
  deleted : Nat := 0
  skipped : Nat := 0
  expectedSize : Option Nat := none
  version : Option String := none
  lastDatestamp : Option String := none
  pages : Nat := 0
  aborted : Bool := false
deriving DecidableEq, Repr

/-- What a sink does with a document: it takes it or fails, and it may raise the abort flag. -/
structure Receipt (τ : Type) where
  result : Except Error Unit
  state : τ
  raised : Bool := false

abbrev Sink (τ : Type) := Document → τ → Receipt τ

/-- The sink that keeps all documents in order. -/
def Sink.collect : Sink (List Document) := fun d kept => { result := .ok (), state := kept ++ [d] }

/-- A run in progress. -/
structure Run (σ τ : Type) where
  cursor : Cursor
  session : Session σ
  sink : τ
  report : Report := {}

namespace Run

variable {σ τ : Type}

inductive Progress (σ τ : Type) where
  | going (r : Run σ τ)
  | ended (result : Except Error Report) (r : Run σ τ)

/-- The report with a record passed. -/
def passed (r : Run σ τ) (record : Record) : Run σ τ :=
  { r with
    report := { r.report with
      lastDatestamp := record.datestamp.or r.report.lastDatestamp } }

def deliver (sink : Sink τ) (d : Document) (r : Run σ τ) : Except Error Unit × Run σ τ :=
  let receipt := sink d r.sink
  (receipt.result,
    { r with
      sink := receipt.state,
      session := { r.session with aborted := r.session.aborted || receipt.raised },
      report := { r.report with documents := r.report.documents + 1 } })

def takeRecord (w : Crosswalk) (sink : Sink τ) (record : Record) (r : Run σ τ) : Progress σ τ :=
  let r := { r with
    report := { r.report with
      deleted := r.report.deleted + if record.deleted then 1 else 0 } }
  match w.transform record with
  | .ok (some d) =>
    match r.deliver sink d with
    | (.ok (), r) => .going (r.passed record)
    | (.error e, r) => .ended (.error e) r
  | .ok none => .going (r.passed record)
  | .error _ =>
    .going ({ r with report := { r.report with skipped := r.report.skipped + 1 } }.passed record)

def finalReport (r : Run σ τ) : Report :=
  { r.report with pages := r.cursor.pages, aborted := r.session.aborted }

def step (source : Source σ) (w : Crosswalk) (sink : Sink τ) (r : Run σ τ) : Progress σ τ :=
  match r.cursor.next source r.session with
  | (none, cursor, session) =>
    let r := { r with cursor, session }
    .ended (.ok r.finalReport) r
  | (some (.error e), cursor, session) => .ended (.error e) { r with cursor, session }
  | (some (.ok record), cursor, session) =>
    takeRecord w sink record { r with cursor, session }

/-- The run up to its end, if it comes within `limit` steps. -/
def drive (source : Source σ) (w : Crosswalk) (sink : Sink τ) :
    Nat → Run σ τ → Option (Except Error Report × Run σ τ)
  | 0, _ => none
  | limit + 1, r =>
    match step source w sink r with
    | .going r => drive source w sink limit r
    | .ended result r => some (result, r)

/-- The first page is asked for before anything else, for the report tells of it. -/
def start (source : Source σ) (query : ListQuery) (session : Session σ) (sink : τ) :
    Progress σ τ :=
  match (Cursor.ofQuery query).start source session with
  | (.error e, cursor, session) => .ended (.error e) { cursor, session, sink }
  | (.ok (), cursor, session) =>
    .going { cursor, session, sink,
             report := { expectedSize := cursor.expectedSize, version := cursor.version } }

def all (source : Source σ) (w : Crosswalk) (sink : Sink τ) (limit : Nat) (query : ListQuery)
    (session : Session σ) (state : τ) : Option (Except Error Report × Session σ × τ) :=
  let done (result : Except Error Report) (r : Run σ τ) :
      Except Error Report × Session σ × τ := (result, r.session, r.sink)
  match start source query session state with
  | .ended result r => some (done result r)
  | .going r => (drive source w sink limit r).map fun (result, r) => done result r

end Run

structure Harvester where
  settings : Settings
  formats : Formats
  provider : String
  /-- The crosswalk of the last run. -/
  bound : Option Crosswalk := none
deriving DecidableEq, Repr

namespace Harvester

variable {σ : Type}

/-- Formats and name of the repository of a host; without a host nothing is asked for. -/
def resolve (source : Source σ) (host : Option String) (s : Session σ) :
    (Formats × String) × Session σ :=
  match host with
  | none => (({}, Repository.unknownName), s)
  | some host =>
    let (formats, s) := s.request source (Request.metadataFormats host)
    let (identity, s) := s.request source (Request.identify host)
    ((Formats.ofAnswer formats, Repository.nameOfAnswer identity), s)

/-- A new harvester has an abort flag of its own, which is not raised. -/
def create (source : Source σ) (settings : Settings) (state : σ) : Harvester × Session σ :=
  let settings := settings.normalize
  let ((formats, provider), s) :=
    resolve source settings.chosenHost? { state, aborted := false }
  ({ settings, formats, provider }, { s with aborted := false })

/-- Other settings. A new host is asked for its formats and name, and any change unbinds the
crosswalk. -/
def setSettings (source : Source σ) (settings : Settings) (h : Harvester) (s : Session σ) :
    Harvester × Session σ :=
  let settings := settings.normalize
  let ((formats, provider), s) :=
    if h.settings.chosenHost? == settings.chosenHost? then ((h.formats, h.provider), s)
    else resolve source settings.chosenHost? s
  ({ settings, formats, provider, bound := if h.settings == settings then h.bound else none }, s)

/-- The schema of the prefix; in mixed mode the prefix may have a schema that cannot be mapped
from. -/
def validate (h : Harvester) : Except Error (Option Schema) := do
  h.settings.validateDates
  h.formats.validate h.settings.chosenHost? h.settings.chosenPrefix? h.settings.mixedSchemas

def crosswalk (h : Harvester) : Except Error Crosswalk := do
  let schema ← h.validate
  let context := Context.ofSettings h.provider h.settings
  if h.settings.mixedSchemas then .ok { mapping := .declared, context }
  else
    match schema with
    | some schema => .ok { mapping := .bound schema, context }
    | none => .error (.settings "Metadata prefix has no supported schema" h.formats.supported)

/-- The crosswalk of the last run, or else a new one. -/
def crosswalkToUse (h : Harvester) : Except Error Crosswalk :=
  match h.bound with
  | some w => .ok w
  | none => h.crosswalk

/-- A run over all records. The abort flag is cleared first. There is no result if the run does not
end within `limit` steps. -/
def harvestEach {τ : Type} (source : Source σ) (sink : Sink τ) (limit : Nat) (h : Harvester)
    (s : Session σ) (state : τ) : Option (Except Error Report × Harvester × Session σ × τ) :=
  let s := { s with aborted := false }
  match h.crosswalkToUse with
  | .error e => some (.error e, { h with bound := none }, s, state)
  | .ok w =>
    let h := { h with bound := some w }
    match ListQuery.ofSettings h.settings with
    | .error e => some (.error e, h, s, state)
    | .ok query =>
      (Run.all source w sink limit query s state).map fun (result, s, state) =>
        (result, h, s, state)

/-- A run that keeps all documents. -/
def harvest (source : Source σ) (limit : Nat) (h : Harvester) (s : Session σ) :
    Option (Except Error (List Document × Report) × Harvester × Session σ) :=
  (h.harvestEach source Sink.collect limit s []).map fun (result, h, s, documents) =>
    (result.map fun report => (documents, report), h, s)

end Harvester
end Harvest
