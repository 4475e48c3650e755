import Harvest.Document
import Harvest.Text.Piece

/-!
Dates as records write them. A slash, or else a hyphen between blanks, parts the two ends of a
range, either of which may be missing. The year of a date is its first four digits.
-/
namespace Harvest.Crosswalk

def rangeMarks : List (List Char) := [['/'], [' ', '-', ' ']]

/-- The two sides of the first mark of the list that the text holds. -/
def cutRange (s : List Char) : List (List Char) → Option (List Char × List Char)
  | [] => none
  | mark :: more => (Text.cutAt mark s).or (cutRange s more)

def rangeEnd (s : List Char) : Option String :=
  Text.nonEmpty (String.ofList (Text.trimChars s))

def dateOfChars (s : List Char) : DateValue :=
  match cutRange s rangeMarks with
  | some (start, stop) => .range (rangeEnd start) (rangeEnd stop)
  | none => .point (String.ofList s)

def readDate (s : String) : DateValue := dateOfChars (Text.trimChars s.toList)

/-- The number of four digits. -/
def yearOfDigits : List Char → Option Int
  | a :: b :: c :: d :: _ =>
    if a.isDigit && b.isDigit && c.isDigit && d.isDigit then
      some ↑(1000 * (a.toNat - 48) + 100 * (b.toNat - 48) + 10 * (c.toNat - 48) +
        (d.toNat - 48))
    else none
  | _ => none

/-- The year a text begins with, blanks aside. -/
def yearOf (s : String) : Option Int := yearOfDigits (Text.trimStart s.toList)

/-- The year of a date; a range has the year of its start. -/
def dateYear : DateValue → Option Int
  | .point value => yearOf value
  | .range start _ => start.bind yearOf

def issuedYear (dates : List DocumentDate) : Option Int :=
  (dates.find? fun d => d.dateType == .issued).bind fun d => dateYear d.date

/-- The publication year is that of the first issue date if the record gives none itself. -/
def fillYear (d : Document) : Document :=
  { d with publicationYear := d.publicationYear.or (issuedYear d.dates) }

end Harvest.Crosswalk
