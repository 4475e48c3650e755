import Harvest.Datestamp
import Harvest.Record

/-!
One answer to a request for records: the records of a page, the token that continues the list, and
an error of the protocol. An answer without a list of records has neither records nor a token.
-/
namespace Harvest

open Xml

/-- The value is empty on the last page of a list. -/
structure ResumptionToken where
  value : String
  completeListSize : Option Nat
deriving DecidableEq, Repr

structure ProtocolError where
  code : String
  message : String
deriving DecidableEq, Repr

structure Page where
  records : List Record := []
  token : Option ResumptionToken := none
  error : Option ProtocolError := none

/-- A number of 64 bits in decimal digits, perhaps with a plus before them. -/
def readSize (s : String) : Option Nat :=
  let digits := match Text.trimChars s.toList with
    | '+' :: digits => digits
    | digits => digits
  if digits.isEmpty then none
  else (Datestamp.number? digits).filter (· < Nat.pow 2 64)

def ProtocolError.ofElement (e : Element) : ProtocolError where
  code := (e.attributeNamed? "code").getD ""
  message := e.leadText

def ResumptionToken.ofElement (e : Element) : ResumptionToken where
  value := e.leadText
  completeListSize := (e.attributeNamed? "completeListSize").bind readSize

namespace Page

def ofElement (root : Element) : Page :=
  let error := (root.child? "error").map ProtocolError.ofElement
  match root.child? "ListRecords" with
  | none => { error }
  | some list =>
    { records := (list.childrenNamed "record").map Record.ofElement,
      token := (list.child? "resumptionToken").map ResumptionToken.ofElement,
      error }

def parse (body : String) : Except Error Page :=
  match Xml.parse? body with
  | some root => .ok (ofElement root)
  | none => .error .malformedXml

/-- The token of the next page. -/
def nextToken? (p : Page) : Option String := p.token.bind fun t => Text.nonEmpty t.value

end Page
end Harvest
