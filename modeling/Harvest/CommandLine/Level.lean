/-!
One level of a command line: flags, their values and operands, up to the name of a command, behind
which the next level begins. The value of a flag is checked only when the next thing is accepted, or
at the end of the level.
-/
namespace Harvest.CommandLine

/-- Why a command line is not carried out. -/
inductive Refusal where
  | help
  | version
  /-- Nothing is given, so that help is due. -/
  | nothingGiven
  | missingCommand
  | unknownCommand
  | unknownArgument
  | missingArgument
  | repeatedArgument
  | invalidValue
  | unexpectedValue
deriving DecidableEq, Repr

/-- What a flag does. -/
inductive Effect where
  | help
  | version
  | toggle
  /-- Takes a value that passes a test. -/
  | slot (admits : String → Bool)

/-- A flag, given by its name behind two hyphens or by its letter behind one. -/
structure Flag where
  name : String
  letter : Option Char := none
  effect : Effect

def Flag.isSlot (f : Flag) : Bool :=
  match f.effect with
  | .slot _ => true
  | _ => false

/-- What a level may consist of. -/
structure Grammar where
  flags : List Flag
  /-- The greatest number of operands. -/
  operands : Nat := 0
  commands : List String := []

/-- A slot that has been opened, with its value once this has come. -/
structure Pending where
  name : String
  admits : String → Bool
  value : Option String := none

/-- What has been given at a level. -/
structure Given where
  toggles : List String := []
  values : List (String × String) := []
  operands : List String := []
  pending : Option Pending := none

namespace Given

/-- Whether the next word is a value. -/
def waiting (g : Given) : Bool := g.pending.any fun p => p.value.isNone

def put (name : String) (admits : String → Bool) (value : String) (g : Given) :
    Except Refusal Given :=
  if (g.values.lookup name).isSome then .error .repeatedArgument
  else if admits value then .ok { g with values := g.values ++ [(name, value)] }
  else .error .invalidValue

/-- Accepts the pending value. -/
def settle (g : Given) : Except Refusal Given :=
  match g.pending with
  | none => .ok g
  | some { name, admits, value := some value } => { g with pending := none }.put name admits value
  | some { value := none, .. } => .error .invalidValue

/-- Gives a flag. A value that is attached to it is accepted at once. -/
def give (f : Flag) (attached : Option String) (g : Given) : Except Refusal Given := do
  let g ← g.settle
  match f.effect with
  | .help => .error .help
  | .version => .error .version
  | .toggle =>
    if g.toggles.contains f.name then .error .repeatedArgument
    else .ok { g with toggles := f.name :: g.toggles }
  | .slot admits =>
    match attached with
    | some value => g.put f.name admits value
    | none => .ok { g with pending := some { name := f.name, admits } }

end Given

/-- How an argument is written. -/
inductive Shape where
  | long (name : String) (attached : Option String)
  | letters (cs : List Char)
  | word

/-- A lone hyphen is a word. -/
def Shape.of (argument : String) : Shape :=
  match argument.toList with
  | '-' :: '-' :: cs =>
    match cs.dropWhile (· != '=') with
    | [] => .long (String.ofList cs) none
    | _ :: value => .long (String.ofList (cs.takeWhile (· != '='))) (some (String.ofList value))
  | '-' :: c :: cs => .letters (c :: cs)
  | _ => .word

namespace Grammar

def giveLong (grammar : Grammar) (name : String) (attached : Option String) (g : Given) :
    Except Refusal Given :=
  match grammar.flags.find? fun f => f.name == name with
  | none => .error .unknownArgument
  | some f =>
    if attached.isSome && !f.isSlot then .error .unexpectedValue else g.give f attached

/-- The value behind the letter of a slot; an equals sign may stand between them. -/
def attachedTo : List Char → Option String
  | [] => none
  | '=' :: value => some (String.ofList value)
  | value => some (String.ofList value)

/-- Gives the flags of letters, up to the first slot, which takes what follows as its value. -/
def giveLetters (grammar : Grammar) : List Char → Given → Except Refusal Given
  | [], g => .ok g
  | c :: rest, g =>
    match grammar.flags.find? fun f => f.letter == some c with
    | none => .error .unknownArgument
    | some f =>
      if f.isSlot then g.give f (attachedTo rest)
      else do
        let g ← g.give f none
        giveLetters grammar rest g

/-- Why an operand cannot be accepted. -/
def refusal (grammar : Grammar) (trailing : Bool) (word : String) : Refusal :=
  if grammar.commands.isEmpty || (trailing && grammar.commands.contains word) then .unknownArgument
  else .unknownCommand

def giveWord (grammar : Grammar) (trailing : Bool) (word : String) (g : Given) :
    Except Refusal Given :=
  match g.pending with
  | some p =>
    if p.value.isNone && !trailing then .ok { g with pending := some { p with value := word } }
    else operand g
  | none => operand g
where
  operand (g : Given) : Except Refusal Given :=
    if g.operands.length < grammar.operands then do
      let g ← g.settle
      .ok { g with operands := g.operands ++ [word] }
    else .error (grammar.refusal trailing word)

/-- Reads a level up to its end or to the name of a command, which is given with the arguments
behind it. Behind two hyphens there are only operands; `trailing` says that they have come. -/
def read (grammar : Grammar) :
    Bool → List String → Given → Except Refusal (Given × Option (String × List String))
  | _, [], g => do
    let g ← g.settle
    .ok (g, none)
  | true, argument :: rest, g => do
    let g ← grammar.giveWord true argument g
    read grammar true rest g
  | false, argument :: rest, g =>
    if !g.waiting && grammar.commands.contains argument then .ok (g, some (argument, rest))
    else if argument == "--" then read grammar true rest g
    else do
      let g ← match Shape.of argument with
        | .long name attached => grammar.giveLong name attached g
        | .letters cs => grammar.giveLetters cs g
        | .word => grammar.giveWord false argument g
      read grammar false rest g

end Grammar
end Harvest.CommandLine
