import Harvest.Files.Plan
import Harvest.Output.Format

/-!
Saving documents to a file. The text goes to a temporary file beside it, which then takes its name,
so that nobody sees a file that is written in part.
-/
namespace Harvest.Output

open Files

/-- The temporary file for a path. A path without a name of its own has one by the format. -/
def temporary (format : Format) (p : Path) : Path :=
  p.parent.child ("." ++ p.fileName?.getD ("documents." ++ format.name) ++ ".tmp")

/-- The steps of a save. Left out is one that Windows alone needs before the last: a file that is
there is removed first, since none can take its name. -/
def savePlan (content : String) (format : Format) (p : Path) : Plan :=
  let draft := temporary format p
  Plan.makeDirectories p.parent.names.reverse <|
    Plan.require (.create draft) <|
    Plan.require (.write draft content) <|
    Plan.require (.sync draft) <|
    Plan.require (.rename draft p) <|
    .finish (.ok ())

def save (documents : List Document) (format : Format) (p : Path) (t : Tree) :
    Except Error Unit × Tree :=
  let (result, t) := (savePlan (render documents format) format p).run t
  (result.mapError .io, t)

end Harvest.Output
