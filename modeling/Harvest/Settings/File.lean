import Harvest.Error
import Harvest.Settings
import Harvest.Yaml.Node

/-!
Settings out of the text of a YAML file. The file is a mapping from names to scalars, and nothing in
it means no settings. Names that are not known are passed over with their values, but no known name
is given twice.
-/
namespace Harvest.Settings

open Yaml

/-- Octets of a tag as text, if they are one. -/
def tagText? (octets : List Nat) : Option String :=
  String.fromUTF8? (octets.map Nat.toUInt8).toByteArray

/-- The tag of one of the usual types. -/
def usualTag (name : String) : String := "tag:yaml.org,2002:" ++ name

def hasTag (name : String) (s : Scalar) : Bool :=
  (s.tag.bind tagText?) == some (usualTag name)

/-- A text, or none where the scalar is null. Only a plain scalar is null, and only without tag or
with that of null; with this one it must be. -/
def textOf (s : Scalar) : Option (Option String) :=
  if s.writing != .plain then some (some s.text)
  else if hasTag "null" s then
    if isNull s.text && !s.text.isEmpty then some none else none
  else if s.tag.isNone && isNull s.text then some none
  else some (some s.text)

/-- A truth value is plain, or else a literal block with its tag. -/
def truthOf (s : Scalar) : Option Bool :=
  if s.writing == .plain || (s.writing == .literal && hasTag "bool" s) then truth? s.text
  else none

def policies : List (String × DeletionPolicy) :=
  [("drop_deleted", .dropDeleted), ("emit_tombstone", .emitTombstone)]

/-- A policy is named by the text of a scalar, or by its own tag on one that is null. -/
def policyOf (s : Scalar) : Option DeletionPolicy :=
  match (s.tag.bind tagText?).map String.toList with
  | some ('!' :: name) =>
    if s.writing == .plain && isNull s.text then policies.lookup (String.ofList name) else none
  | _ => policies.lookup s.text

/-- The settings with the one of a name read from a scalar; nothing if the name is not known. -/
def field? : String → Option (Scalar → Settings → Option Settings)
  | "from" => some fun s c => (textOf s).map fun t => { c with since := t }
  | "until" => some fun s c => (textOf s).map fun t => { c with upTo := t }
  | "host_url" => some fun s c => (textOf s).map fun t => { c with hostUrl := t }
  | "metadata_prefix" => some fun s c => (textOf s).map fun t => { c with metadataPrefix := t }
  | "logo_url" => some fun s c => (textOf s).map fun t => { c with logoUrl := t }
  | "view_url" => some fun s c => (textOf s).map fun t => { c with viewUrl := t }
  | "set" => some fun s c => (textOf s).map fun t => { c with set := t }
  | "mixed_schemas" => some fun s c => (truthOf s).map fun b => { c with mixedSchemas := b }
  | "deletion_policy" => some fun s c => (policyOf s).map fun p => { c with deletionPolicy := p }
  | _ => none

/-- Reads entries behind those whose names are `seen`. -/
def readEntries (d : Content) : List String → List (Node × Node) → Settings → Option Settings
  | _, [], c => some c
  | seen, (key, value) :: rest, c => do
    let name := (← d.scalar? key).text
    match field? name with
    | none => readEntries d seen rest c
    | some read =>
      if seen.contains name then none
      else do
        let c ← read (← d.scalar? value) c
        readEntries d (name :: seen) rest c

def ofContent (d : Content) : Option Settings :=
  match d.root with
  | none => some {}
  | some (.mapping entries) => readEntries d [] entries {}
  | some (.scalar s) => if s.text.isEmpty && s.writing == .plain then some {} else none
  | some _ => none

/-- The settings in the text of a file, in normal form. -/
def ofYaml (s : String) : Except Error Settings :=
  match (Content.ofText? s).bind ofContent with
  | some c => .ok c.normalize
  | none => .error .malformedYaml

end Harvest.Settings
