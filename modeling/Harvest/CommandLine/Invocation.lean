import Harvest.CommandLine.Level
import Harvest.Output.Format
import Harvest.Settings.File

/-!
The commands: to harvest a repository, to list its metadata formats, and to tell its name. The flags
of a harvest override the settings of its file.
-/
namespace Harvest.CommandLine

/-- What a harvest is asked for with. -/
structure HarvestOptions where
  settingsFile : Option String := none
  /-- The settings given by flags. -/
  given : Settings := {}
  output : Option String := none
  format : Option Output.Format := none
deriving DecidableEq, Repr

inductive Command where
  | harvest (options : HarvestOptions)
  | formats (hostUrl : String)
  | identify (hostUrl : String)
deriving DecidableEq, Repr

structure Invocation where
  verbose : Bool
  command : Command
deriving DecidableEq, Repr

def anyText (_ : String) : Bool := true

def isPath (s : String) : Bool := !s.isEmpty

def isFormat (s : String) : Bool := (Output.Format.ofName? s).isSome

def commonFlags : List Flag :=
  [{ name := "help", letter := some 'h', effect := .help },
   { name := "verbose", letter := some 'v', effect := .toggle }]

def harvestFlags : List Flag :=
  [{ name := "config", letter := some 'c', effect := .slot isPath },
   { name := "host", effect := .slot anyText },
   { name := "prefix", letter := some 'p', effect := .slot anyText },
   { name := "from", effect := .slot anyText },
   { name := "until", effect := .slot anyText },
   { name := "set", effect := .slot anyText },
   { name := "logo-url", effect := .slot anyText },
   { name := "view-url", effect := .slot anyText },
   { name := "mixed-schemas", effect := .toggle },
   { name := "emit-tombstones", effect := .toggle },
   { name := "output", letter := some 'o', effect := .slot isPath },
   { name := "format", letter := some 'f', effect := .slot isFormat }]

def commandNames : List String := ["harvest", "formats", "identify", "help"]

def mainGrammar : Grammar where
  flags := commonFlags ++ [{ name := "version", letter := some 'V', effect := .version }]
  commands := commandNames

def harvestGrammar : Grammar where
  flags := commonFlags ++ harvestFlags

/-- The grammar of a command that only takes a host. -/
def hostGrammar : Grammar where
  flags := commonFlags
  operands := 1

def HarvestOptions.ofGiven (g : Given) : HarvestOptions where
  settingsFile := g.values.lookup "config"
  given :=
    { since := g.values.lookup "from", upTo := g.values.lookup "until",
      hostUrl := g.values.lookup "host", metadataPrefix := g.values.lookup "prefix",
      logoUrl := g.values.lookup "logo-url", viewUrl := g.values.lookup "view-url",
      set := g.values.lookup "set", mixedSchemas := g.toggles.contains "mixed-schemas",
      deletionPolicy :=
        if g.toggles.contains "emit-tombstones" then .emitTombstone else .dropDeleted }
  output := g.values.lookup "output"
  format := (g.values.lookup "format").bind Output.Format.ofName?

/-- The settings of a harvest in normal form: what is given by flags, and else what the file says.
-/
def HarvestOptions.settings (readFile : String → Except IoError String) (o : HarvestOptions) :
    Except Error Settings := do
  let c ← match o.settingsFile with
    | none => .ok {}
    | some p => do
      let content ← (readFile p).mapError .io
      Settings.ofYaml content
  let given := o.given
  .ok (Settings.normalize
    { since := given.since.or c.since, upTo := given.upTo.or c.upTo,
      hostUrl := given.hostUrl.or c.hostUrl,
      metadataPrefix := given.metadataPrefix.or c.metadataPrefix,
      logoUrl := given.logoUrl.or c.logoUrl, viewUrl := given.viewUrl.or c.viewUrl,
      set := given.set.or c.set, mixedSchemas := given.mixedSchemas || c.mixedSchemas,
      deletionPolicy :=
        if given.deletionPolicy = .emitTombstone then .emitTombstone else c.deletionPolicy })

/-- The format to write in; by the name of the file if none is asked for, and JSON without a file.
-/
def HarvestOptions.chosenFormat (o : HarvestOptions) : Output.Format :=
  o.format.getD ((o.output.map fun p => Output.Format.ofPath (Files.Path.ofText p)).getD .json)

/-- The answer to a call for help on commands. -/
def helpOn : List String → Refusal
  | [] => .help
  | [name] => if commandNames.contains name then .help else .unknownCommand
  | _ => .unknownCommand

def hostOf (g : Given) : Except Refusal String :=
  match g.operands with
  | [] => .error .missingArgument
  | host :: _ => .ok host

namespace Invocation

/-- The invocation by the name of a command and the arguments behind it. -/
def ofCommand (verbose : Bool) (name : String) (rest : List String) : Except Refusal Invocation :=
  if name == "help" then .error (helpOn rest)
  else if name == "harvest" then do
    let (g, _) ← harvestGrammar.read false rest {}
    .ok (finish g (.harvest (.ofGiven g)))
  else do
    let (g, _) ← hostGrammar.read false rest {}
    let host ← hostOf g
    .ok (finish g (if name == "formats" then .formats host else .identify host))
where
  finish (g : Given) (command : Command) : Invocation :=
    { verbose := verbose || g.toggles.contains "verbose", command }

/-- The invocation by the arguments of a command line. -/
def ofArguments (arguments : List String) : Except Refusal Invocation := do
  let (g, command) ← mainGrammar.read false arguments {}
  match command with
  | some (name, rest) => ofCommand (g.toggles.contains "verbose") name rest
  | none => .error (if g.toggles.isEmpty then .nothingGiven else .missingCommand)

end Invocation
end Harvest.CommandLine
