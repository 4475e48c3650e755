import Harvest.Schema
import Harvest.Error
import Harvest.Xml.Document
import Harvest.Xml.Query

/-!
The metadata formats that a repository offers: prefixes of its choice with the URLs of their
schemas. They are kept in the order of the prefixes, each prefix once with the URL given last. A
prefix is valid for a harvest if it is offered and its schema can be mapped from.
-/
namespace Harvest

open Xml

structure Formats where
  entries : List (String × String) := []
deriving DecidableEq, Repr

namespace Formats

def insertEntry (key url : String) : List (String × String) → List (String × String)
  | [] => [(key, url)]
  | (k, u) :: rest =>
    if key < k then (key, url) :: (k, u) :: rest
    else if key == k then (key, url) :: rest
    else (k, u) :: insertEntry key url rest

def insert (f : Formats) (key url : String) : Formats := ⟨insertEntry key url f.entries⟩

def ofPairs (pairs : List (String × String)) : Formats :=
  pairs.foldl (fun f (key, url) => f.insert key url) {}

/-- The prefix and URL of a format that gives both. -/
def pairOfElement (e : Element) : Option (String × String) := do
  let key ← e.childLeadText? "metadataPrefix"
  let url ← e.childLeadText? "schema"
  some (key, url)

def ofElement (root : Element) : Formats :=
  ofPairs ((root.everywhere.filter (·.name == "metadataFormat")).filterMap pairOfElement)

def parse (body : String) : Except Error Formats :=
  match Xml.parse? body with
  | some root => .ok (ofElement root)
  | none => .error .malformedXml

/-- The formats in an answer; none if the request failed or the answer cannot be read. -/
def ofAnswer (answer : Except Error String) : Formats :=
  match answer.bind parse with
  | .ok formats => formats
  | .error _ => {}

def isEmpty (f : Formats) : Bool := f.entries.isEmpty

def size (f : Formats) : Nat := f.entries.length

def schemaUrl? (f : Formats) (key : String) : Option String := f.entries.lookup key

def schema? (f : Formats) (key : String) : Option Schema := (f.schemaUrl? key).bind Schema.ofUrl?

def prefixes (f : Formats) : List String := f.entries.map (·.1)

/-- The prefixes whose schemas can be mapped from. -/
def supported (f : Formats) : List String :=
  (f.entries.filter fun (_, url) => (Schema.ofUrl? url).isSome).map (·.1)

/-- The schema to use for a prefix. Where `anySchema` holds, a prefix whose schema cannot be mapped
from is valid too, and has no schema to use. -/
def validate (f : Formats) (host chosen : Option String) (anySchema : Bool) :
    Except Error (Option Schema) :=
  let fail (message : String) : Except Error (Option Schema) :=
    .error (.settings message f.supported)
  match chosen.filter fun p => !Text.blank p with
  | none => fail "No metadata prefix configured"
  | some p =>
    if (host.filter fun h => !Text.blank h).isNone then fail "No host URL configured"
    else if f.isEmpty then fail "The repository did not advertise any metadata formats"
    else
      match f.schemaUrl? p with
      | none => fail ("Metadata prefix '" ++ p ++ "' is not offered by the repository")
      | some url =>
        match Schema.ofUrl? url with
        | some schema => .ok (some schema)
        | none =>
          if anySchema then .ok none
          else fail ("Metadata prefix '" ++ p ++ "' uses unsupported schema " ++ url)

end Formats
end Harvest
