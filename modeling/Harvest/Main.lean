import Harvest.CommandLine.Outcome
import Harvest.Output.Save

/-!
The program. It reads its arguments and a file with settings, and writes documents, lists and
errors. It has no connection of its own: every request ends without an answer.
-/
namespace Harvest.Program

open CommandLine

def usage : String :=
  "\n".intercalate
    ["usage: harvester [-v] harvest [options]", "       harvester [-v] formats HOST_URL",
     "       harvester [-v] identify HOST_URL", "", "options of harvest:",
     "  -c, --config FILE     settings in YAML; flags override them",
     "  --host URL            the repository",
     "  -p, --prefix PREFIX   the metadata prefix",
     "  --from DATE, --until DATE, --set SET   which records",
     "  --logo-url URL, --view-url URL         links added to every document",
     "  --mixed-schemas       map each record by the schema it declares",
     "  --emit-tombstones     keep deleted records as tombstones",
     "  -o, --output FILE     where to write, instead of standard output",
     "  -f, --format FORMAT   json or yaml"]

def versionText : String := "harvester 0.1.0"

def stepLimit : Nat := 1000000

def textOf : Refusal → String
  | .help => usage
  | .version => versionText
  | .nothingGiven => usage
  | .missingCommand => "a command is missing"
  | .unknownCommand => "unknown command"
  | .unknownArgument => "unknown argument"
  | .missingArgument => "an argument is missing"
  | .repeatedArgument => "an argument is given more than once"
  | .invalidValue => "invalid value"
  | .unexpectedValue => "unexpected value"

/-- Whether the refusal is what was asked for. -/
def asked : Refusal → Bool
  | .help => true
  | .version => true
  | _ => false

def fail (e : Error) : IO UInt32 := do
  IO.eprintln ("Error: " ++ e.message)
  return 1

/-- The answer to reading the file with settings. -/
def readSettingsFile (o : HarvestOptions) : IO (String → Except IoError String) := do
  match o.settingsFile with
  | none => return fun _ => .error .notFound
  | some path =>
    try
      let content ← IO.FS.readFile path
      return fun _ => .ok content
    catch _ => return fun _ => .error .notFound

/-- Writes a text to a file by way of the temporary file beside it. -/
def writeFile (format : Output.Format) (path text : String) : IO Unit := do
  let p := Files.Path.ofText path
  let root := if path.startsWith "/" then "/" else ""
  let place (q : Files.Path) : String := root ++ "/".intercalate q.parts
  if !p.parent.parts.isEmpty then IO.FS.createDirAll (place p.parent)
  let draft := place (Output.temporary format p)
  IO.FS.writeFile draft text
  IO.FS.rename draft path

def runHarvest (o : HarvestOptions) : IO UInt32 := do
  let readFile ← readSettingsFile o
  match o.settings readFile with
  | .error e => fail e
  | .ok c =>
    match CommandLine.harvest Source.unreachable stepLimit c () with
    | none => return 1
    | some (.error e) => fail e
    | some (.ok (documents, report)) => do
      IO.eprintln ("Documents: " ++ toString report.documents)
      let text := Output.render documents o.chosenFormat
      match o.output with
      | none => IO.print text
      | some path => writeFile o.chosenFormat path text
      return 0

def run (command : Command) : IO UInt32 := do
  match command with
  | .harvest o => runHarvest o
  | .formats hostUrl =>
    match listFormats Source.unreachable hostUrl () with
    | .error e => fail e
    | .ok lines =>
      lines.forM fun line => IO.println line
      return 0
  | .identify hostUrl =>
    IO.println (CommandLine.identify Source.unreachable hostUrl ())
    return 0

end Harvest.Program

def main (arguments : List String) : IO UInt32 := do
  match Harvest.CommandLine.Invocation.ofArguments arguments with
  | .ok invocation => Harvest.Program.run invocation.command
  | .error refusal =>
    if Harvest.Program.asked refusal then
      IO.println (Harvest.Program.textOf refusal)
      return 0
    else
      IO.eprintln (Harvest.Program.textOf refusal)
      return 2
