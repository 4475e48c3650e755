/-!
Paths to files, as written: the names between slashes. Single dots and repeated slashes say nothing
about where a path leads, but a path that ends in one of them can only lead to a directory.
-/
namespace Harvest.Files

structure Path where
  /-- The parts between slashes that are not empty; dots included. -/
  parts : List String
  /-- Whether a slash follows the last part. -/
  slashed : Bool
deriving DecidableEq, Repr

namespace Path

def ofText (s : String) : Path where
  parts := ((s.toList.splitOn '/').filter fun part => !part.isEmpty).map String.ofList
  slashed := s.toList.getLast? == some '/'

/-- The path inside a directory; a path that begins with a slash does not depend on the directory.
-/
def inside (directory path : String) : String :=
  if path.toList.head? == some '/' then path else directory ++ "/" ++ path

/-- The names on the way, without those that stay in place. -/
def names (p : Path) : List String := p.parts.filter (· != ".")

/-- The name of what the path leads to. A path that goes up at its end names nothing. -/
def fileName? (p : Path) : Option String :=
  p.names.getLast?.filter (· != "..")

def parent (p : Path) : Path := { parts := p.names.dropLast, slashed := false }

def child (p : Path) (name : String) : Path := { parts := p.parts ++ [name], slashed := false }

/-- What follows the last dot of a name. A dot at the start of a name does not count. -/
def extensionOf (name : String) : Option String :=
  let reversed := name.toList.reverse
  let behind := reversed.takeWhile (· != '.')
  match reversed.drop behind.length with
  | _ :: _ :: _ => some (String.ofList behind.reverse)
  | _ => none

def extension? (p : Path) : Option String := p.fileName?.bind extensionOf

end Path
end Harvest.Files
