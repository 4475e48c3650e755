import Harvest.CommandLine.Invocation
import Harvest.Harvester
import Harvest.Request

/-!
What the commands come to with a source of responses. A harvest asks for nothing before its settings
have dates that are dates and a host.
-/
namespace Harvest.CommandLine

/-- Settings that a harvest can start with. -/
def checkSettings (c : Settings) : Except Error Unit := do
  c.validateDates
  if c.chosenHost?.isNone then .error (.settings "No host URL configured" [])

/-- The documents of a harvest with its report; nothing if it does not end within `limit` steps. -/
def harvest {σ : Type} (source : Source σ) (limit : Nat) (c : Settings) (state : σ) :
    Option (Except Error (List Document × Report)) :=
  match checkSettings c with
  | .error e => some (.error e)
  | .ok () =>
    let (h, s) := Harvester.create source c state
    (h.harvest source limit s).map fun (result, _, _) => result

/-- A line of the list of formats: supported ones are marked, others shown with their URL. -/
def formatLine (f : Formats) (entry : String × String) : String :=
  match f.schema? entry.1 with
  | some schema => "✓ " ++ entry.1 ++ " (" ++ schema.displayName ++ ")"
  | none => "  " ++ entry.1 ++ " " ++ entry.2

def listFormats {σ : Type} (source : Source σ) (hostUrl : String) (state : σ) :
    Except Error (List String) :=
  let reply := source (Request.metadataFormats hostUrl) state
  let formats := Formats.ofAnswer reply.answer
  if formats.isEmpty then
    .error (.settings (hostUrl ++ " did not advertise any metadata formats") [])
  else .ok (formats.entries.map (formatLine formats))

def identify {σ : Type} (source : Source σ) (hostUrl : String) (state : σ) : String :=
  Repository.nameOfAnswer (source (Request.identify hostUrl) state).answer

end Harvest.CommandLine
