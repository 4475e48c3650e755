import Harvest.Text.Blank
import Harvest.Text.Letter
import Harvest.Text.Piece

/-!
The metadata schemas that records can be mapped from, and the URLs they are recognized by: with or
without a scheme and the host prefix `www.`, in any case, and for the DataCite kernels in every
minor version.
-/
namespace Harvest

inductive Schema where
  | dataCite2
  | dataCite3
  | dataCite4
  | dublinCore
  | iso19139
deriving DecidableEq, Repr

namespace Schema

def all : List Schema := [dataCite2, dataCite3, dataCite4, dublinCore, iso19139]

def url : Schema → String
  | dataCite2 => "http://schema.datacite.org/meta/kernel-2.2/metadata.xsd"
  | dataCite3 => "http://schema.datacite.org/meta/kernel-3/metadata.xsd"
  | dataCite4 => "http://schema.datacite.org/meta/kernel-4/metadata.xsd"
  | dublinCore => "http://www.openarchives.org/OAI/2.0/oai_dc.xsd"
  | iso19139 => "http://www.isotc211.org/2005/gmd/gmd.xsd"

def displayName : Schema → String
  | dataCite2 => "DataCite 2"
  | dataCite3 => "DataCite 3"
  | dataCite4 => "DataCite 4"
  | dublinCore => "Dublin Core"
  | iso19139 => "ISO 19139"

def kernelPath : List Char := "schema.datacite.org/meta/kernel-".toList

/-- The schema of a URL in lower case, without scheme and `www.`. -/
def ofPlainUrl (plain : List Char) : Option Schema :=
  match Text.after? kernelPath plain with
  | some rest =>
    match rest.takeWhile fun c => c != '/' && c != '.' with
    | ['2'] => some dataCite2
    | ['3'] => some dataCite3
    | ['4'] => some dataCite4
    | _ => none
  | none =>
    if plain == "openarchives.org/oai/2.0/oai_dc.xsd".toList then some dublinCore
    else if plain == "isotc211.org/2005/gmd/gmd.xsd".toList then some iso19139
    else if plain == "isotc211.org/2005/gmd".toList then some iso19139
    else none

/-- A URL in lower case without its scheme and without `www.`. -/
def plainUrl (url : List Char) : List Char :=
  let url := Text.lower (Text.trimChars url)
  let url := ((Text.after? "https://".toList url).or (Text.after? "http://".toList url)).getD url
  (Text.after? "www.".toList url).getD url

def ofUrl? (url : String) : Option Schema := ofPlainUrl (plainUrl url.toList)

end Schema
end Harvest
