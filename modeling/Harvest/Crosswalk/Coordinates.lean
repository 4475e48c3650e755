import Harvest.Document
import Harvest.Number.Literal
import Harvest.Xml.Query

/-!
Coordinates as records write them: as words in a fixed order, which differs between schemas, or as
elements of their own.
-/
namespace Harvest.Crosswalk

open Xml Number

def readCoordinate (s : String) : Option Binary64 := readNumber (Text.trimChars s.toList)

def readCoordinates (s : String) : Option (List Binary64) := (Text.words s).mapM readCoordinate

/-- A point written as longitude and latitude. -/
def pointLongitudeFirst (s : String) : Option Point :=
  match readCoordinates s with
  | some [longitude, latitude] => some { longitude, latitude }
  | _ => none

/-- A point written as latitude and longitude. -/
def pointLatitudeFirst (s : String) : Option Point :=
  match readCoordinates s with
  | some [latitude, longitude] => some { longitude, latitude }
  | _ => none

/-- A box written as its bounds in the west, east, south and north. -/
def boxByBounds (s : String) : Option BoundingBox :=
  match readCoordinates s with
  | some [west, east, south, north] => some { west, east, south, north }
  | _ => none

/-- A box written as its corners in the south-west and north-east, latitudes first. -/
def boxByCorners (s : String) : Option BoundingBox :=
  match readCoordinates s with
  | some [south, west, north, east] => some { west, east, south, north }
  | _ => none

def childCoordinate (tag : String) (e : Element) : Option Binary64 :=
  (e.childText? tag).bind readCoordinate

/-- A point of which each coordinate is an element. -/
def pointOfElement (e : Element) : Option Point := do
  let longitude ← childCoordinate "pointLongitude" e
  let latitude ← childCoordinate "pointLatitude" e
  some { longitude, latitude }

/-- A box of which each bound is an element, as kernel 4 of DataCite writes it. -/
def boxOfElement (e : Element) : Option BoundingBox := do
  let west ← childCoordinate "westBoundLongitude" e
  let east ← childCoordinate "eastBoundLongitude" e
  let south ← childCoordinate "southBoundLatitude" e
  let north ← childCoordinate "northBoundLatitude" e
  some { west, east, south, north }

end Harvest.Crosswalk
