import Harvest.Error
import Harvest.Schema
import Harvest.Xml.Document
import Harvest.Xml.Query

/-!
Records as a repository sends them: a header with an identifier, and metadata in a schema of the
repository's choice. A record tells its schema in the schema location of its metadata.
-/
namespace Harvest

open Xml

structure Header where
  identifier : String := ""
  datestamp : Option String := none
  setSpecs : List String := []
  deleted : Bool := false
deriving DecidableEq, Repr

/-- A record with the root element of its metadata, if it has any. -/
structure Record where
  header : Header
  metadata : Option Element

def Header.ofElement (e : Element) : Header where
  identifier := ((e.child? "identifier").map Element.leadText).getD ""
  datestamp := e.childLeadText? "datestamp"
  setSpecs := (e.childrenNamed "setSpec").filterMap fun s => Text.nonEmpty s.leadText
  deleted := e.attributeNamed? "status" == some "deleted"

namespace Record

def identifier (r : Record) : String := r.header.identifier

def datestamp (r : Record) : Option String := r.header.datestamp

def deleted (r : Record) : Bool := r.header.deleted

def ofElement (e : Element) : Record where
  header := ((e.child? "header").map Header.ofElement).getD {}
  metadata := (e.child? "metadata").bind fun m => m.children.head?

/-- The record that a document of its own holds. -/
def parse (document : String) : Except Error Record :=
  match Xml.parse? document with
  | some root => .ok (ofElement root)
  | none => .error .malformedXml

/-- The namespace of schema locations. -/
def schemaSpace : String := "http://www.w3.org/2001/XMLSchema-instance"

/-- The schema URL a metadata element declares: a schema location lists namespaces and URLs in turn,
and the last word is the URL. -/
def locationOf (metadata : Element) : Option String :=
  ((metadata.attributeIn? (some schemaSpace) "schemaLocation").or
    (metadata.attribute? "schemaLocation")).bind fun location => (Text.words location).getLast?

def schemaLocation? (r : Record) : Option String := r.metadata.bind locationOf

/-- The schema a record declares, if it can be mapped from. -/
def schema? (r : Record) : Option Schema := r.schemaLocation?.bind Schema.ofUrl?

end Record
end Harvest
