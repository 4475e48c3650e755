import Harvest.Datestamp
import Harvest.Text.Blank

/-!
The settings of a harvest. A blank text is the same as no text; settings in normal form have none.
-/
namespace Harvest

/-- What becomes of records that the repository has deleted. -/
inductive DeletionPolicy where
  | dropDeleted
  | emitTombstone
deriving DecidableEq, Repr

structure Settings where
  /-- Only records changed on this date or later. -/
  since : Option String := none
  /-- Only records changed on this date or earlier. -/
  upTo : Option String := none
  hostUrl : Option String := none
  metadataPrefix : Option String := none
  logoUrl : Option String := none
  viewUrl : Option String := none
  set : Option String := none
  /-- Every record is mapped by the schema it declares itself. -/
  mixedSchemas : Bool := false
  deletionPolicy : DeletionPolicy := .dropDeleted
deriving DecidableEq, Repr

namespace Settings

/-- A text that is not blank. -/
def filled (s : Option String) : Option String := s.filter fun t => !Text.blank t

def normalize (c : Settings) : Settings :=
  { c with
    since := filled c.since, upTo := filled c.upTo, hostUrl := filled c.hostUrl,
    metadataPrefix := filled c.metadataPrefix, logoUrl := filled c.logoUrl,
    viewUrl := filled c.viewUrl, set := filled c.set }

def chosenHost? (c : Settings) : Option String := filled c.hostUrl

def chosenPrefix? (c : Settings) : Option String := filled c.metadataPrefix

def validateIfSet : Option String → Except Error Unit
  | none => .ok ()
  | some s => Datestamp.validate s

def validateDates (c : Settings) : Except Error Unit := do
  validateIfSet c.since
  validateIfSet c.upTo

/-- Whether the step to other settings asks for the formats of the repository anew. -/
def requiresRebuild (c d : Settings) : Bool :=
  c.chosenHost? != d.chosenHost? || c.chosenPrefix? != d.chosenPrefix? ||
    c.mixedSchemas != d.mixedSchemas

end Settings
end Harvest
