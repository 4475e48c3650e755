import Harvest.Number.Shortest
import Harvest.Value

/-!
Values in JSON, an item to a line, indented by two spaces for each level. Only quotes, backslashes
and control characters are escaped.
-/
namespace Harvest.Output.Json

def hexDigit (n : Nat) : Char := if n < 10 then Char.ofNat (48 + n) else Char.ofNat (87 + n)

def escape (c : Char) : List Char :=
  if c == '"' then ['\\', '"']
  else if c == '\\' then ['\\', '\\']
  else if c == '\n' then ['\\', 'n']
  else if c == '\r' then ['\\', 'r']
  else if c == '\t' then ['\\', 't']
  else if c == '\x08' then ['\\', 'b']
  else if c == '\x0c' then ['\\', 'f']
  else if c.toNat < 0x20 then
    ['\\', 'u', '0', '0', hexDigit (c.toNat / 16), hexDigit (c.toNat % 16)]
  else [c]

def quote (s : String) : String := String.ofList ('"' :: (s.toList.flatMap escape ++ ['"']))

def indent (level : Nat) : String := String.ofList ('\n' :: List.replicate (2 * level) ' ')

mutual

def write (level : Nat) : Value → String
  | .text s => quote s
  | .integer n => toString n
  | .real x => x.text true
  | .list [] => "[]"
  | .list (item :: more) =>
    "[" ++ indent (level + 1) ++ write (level + 1) item ++ writeItems (level + 1) more ++
      indent level ++ "]"
  | .fields [] => "\x7b\x7d"
  | .fields ((name, value) :: more) =>
    "\x7b" ++ indent (level + 1) ++ quote name ++ ": " ++ write (level + 1) value ++
      writeEntries (level + 1) more ++ indent level ++ "\x7d"

/-- Items behind the first one, each on a line of its own. -/
def writeItems (level : Nat) : List Value → String
  | [] => ""
  | item :: more => "," ++ indent level ++ write level item ++ writeItems level more

def writeEntries (level : Nat) : List (String × Value) → String
  | [] => ""
  | (name, value) :: more =>
    "," ++ indent level ++ quote name ++ ": " ++ write level value ++ writeEntries level more

end

end Harvest.Output.Json
