import Harvest.Text.Form
import Harvest.Text.Piece

/-!
The URLs of requests to a repository. A query is appended to the address of the host, which may have
a query already; its arguments have a fixed order, so that equal requests have equal URLs.
-/
namespace Harvest.Request

def withQuery (host query : String) : String :=
  host ++ (if host.toList.contains '?' then "&" else "?") ++ query

/-- An argument that may be missing; an empty one counts as missing. -/
def argument (name : String) : Option String → String
  | none => ""
  | some value => if value.isEmpty then "" else "&" ++ name ++ "=" ++ Text.formEncode value

def listRecordsQuery (start stop set : Option String) (metadataPrefix : String) : String :=
  "verb=ListRecords" ++ argument "from" start ++ argument "until" stop ++ argument "set" set ++
    "&metadataPrefix=" ++ Text.formEncode metadataPrefix

def listRecords (host : String) (start stop set : Option String) (metadataPrefix : String) :
    String :=
  withQuery host (listRecordsQuery start stop set metadataPrefix)

def resumptionQuery (token : String) : String :=
  "verb=ListRecords&resumptionToken=" ++ Text.formEncode token

def resumption (host token : String) : String := withQuery host (resumptionQuery token)

def metadataFormats (host : String) : String := withQuery host "verb=ListMetadataFormats"

def identify (host : String) : String := withQuery host "verb=Identify"

end Harvest.Request
