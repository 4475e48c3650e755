import Harvest.Error
import Harvest.Files.Path

/-!
A tree of files and directories, and the operations on it. A path is walked name by name from the
root; everything on the way must be a directory. Replacing a file by renaming another one is a
single step.
-/
namespace Harvest.Files

inductive Entry where
  | file (content : String)
  | directory
deriving DecidableEq, Repr

/-- The names that lead from the root to an entry, without dots. -/
abbrev Location := List String

structure Tree where
  entries : List (Location × Entry) := []
deriving DecidableEq, Repr

namespace Tree

/-- The root is always a directory. -/
def get? (t : Tree) (l : Location) : Option Entry :=
  if l.isEmpty then some .directory else t.entries.lookup l

def remove (t : Tree) (l : Location) : Tree := ⟨t.entries.filter fun entry => entry.1 != l⟩

def put (t : Tree) (l : Location) (e : Entry) : Tree := ⟨(l, e) :: (t.remove l).entries⟩

def isDirectory (t : Tree) (l : Location) : Bool := t.get? l == some .directory

/-- The longest name, in octets. -/
def longestName : Nat := 255

/-- Where the parts of a path lead from a location. -/
def walk (t : Tree) (l : Location) : List String → Except IoError Location
  | [] => .ok l
  | part :: rest =>
    if !t.isDirectory l then .error .notADirectory
    else if part == "." then walk t l rest
    else if part == ".." then walk t l.dropLast rest
    else if longestName < part.utf8ByteSize then .error .nameTooLong
    else if (t.get? (l ++ [part])).isNone then .error .notFound
    else walk t (l ++ [part]) rest

/-- A path that ends in a name, with the directory the name is looked for in. -/
inductive Ending where
  | name (directory : Location) (name : String)
  | dots

/-- Walks up to the last part of a path. -/
def ending (t : Tree) (p : Path) : Except IoError Ending :=
  if p.parts.any fun part => part.toList.contains '\x00' then .error .zeroInName
  else
    match p.parts.getLast? with
    | none => .ok .dots
    | some last => do
      let directory ← t.walk [] p.parts.dropLast
      if !t.isDirectory directory then .error .notADirectory
      else if last == "." || last == ".." then .ok .dots
      else if longestName < last.utf8ByteSize then .error .nameTooLong
      else .ok (.name directory last)

def makeDirectory (t : Tree) (p : Path) : Except IoError Tree := do
  match ← t.ending p with
  | .dots => .error .fileExists
  | .name directory name =>
    let l := directory ++ [name]
    if (t.get? l).isSome then .error .fileExists else .ok (t.put l .directory)

/-- Fails if the path does not lead to a directory. -/
def checkDirectory (t : Tree) (p : Path) : Except IoError Tree := do
  let l ← t.walk [] p.parts
  if t.isDirectory l then .ok t else .error .notADirectory

/-- An empty file, in place of a file that was there. -/
def create (t : Tree) (p : Path) : Except IoError Tree := do
  match ← t.ending p with
  | .dots => .error .isADirectory
  | .name directory name =>
    let l := directory ++ [name]
    if t.isDirectory l then .error .isADirectory else .ok (t.put l (.file ""))

/-- Puts content into a file. -/
def write (t : Tree) (p : Path) (content : String) : Except IoError Tree := do
  match ← t.ending p with
  | .dots => .error .isADirectory
  | .name directory name =>
    match t.get? (directory ++ [name]) with
    | some (.file _) => .ok (t.put (directory ++ [name]) (.file content))
    | some .directory => .error .isADirectory
    | none => .error .notFound

/-- What a file is renamed to: a name that is not that of a directory. -/
def renameFile (t : Tree) (source target : Location) (content : String) (slashed : Bool) :
    Except IoError Tree :=
  if slashed then .error .notADirectory
  else if t.isDirectory target then .error .isADirectory
  else .ok ((t.remove source).put target (.file content))

/-- Renames a file, in place of a file that has the new name. -/
def rename (t : Tree) (source target : Path) : Except IoError Tree := do
  match ← t.ending source, ← t.ending target with
  | .name a x, .name b y =>
    match t.get? (a ++ [x]) with
    | some (.file content) => t.renameFile (a ++ [x]) (b ++ [y]) content target.slashed
    | some .directory => .error .isADirectory
    | none => .error .notFound
  | _, _ => .error .busy

/-- The content of a file. -/
def read (t : Tree) (p : Path) : Except IoError String := do
  match ← t.ending p with
  | .dots => .error .isADirectory
  | .name directory name =>
    match t.get? (directory ++ [name]) with
    | some (.file content) => if p.slashed then .error .notADirectory else .ok content
    | some .directory => .error .isADirectory
    | none => .error .notFound

end Tree
end Harvest.Files
