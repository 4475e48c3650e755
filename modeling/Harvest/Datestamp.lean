import Harvest.Error
import Harvest.Text.Digit

/-!
Dates as the protocol writes them: a day, or a day with a time of day to the second in UTC. A text
must have the form of either one, for which decimal digits of any script will do. It is then read,
which takes ASCII digits, and by its length in octets as the one or the other. The day exists in the
proleptic Gregorian calendar of the years 0000 to 9999. A minute may have a leap second.
-/
namespace Harvest.Datestamp

def isLeapYear (year : Nat) : Bool :=
  year % 4 == 0 && (year % 100 != 0 || year % 400 == 0)

def daysInMonth (year month : Nat) : Nat :=
  if month == 2 then if isLeapYear year then 29 else 28
  else if month == 4 || month == 6 || month == 9 || month == 11 then 30
  else if 1 ≤ month && month ≤ 12 then 31
  else 0

def digit? (c : Char) : Option Nat := if c.isDigit then some (c.toNat - 48) else none

/-- The number of some digits, all of them ASCII. -/
def number? (digits : List Char) : Option Nat :=
  digits.foldlM (fun n c => (digit? c).map fun d => 10 * n + d) 0

def isDay (year month day : Nat) : Bool := 1 ≤ day && day ≤ daysInMonth year month

def isTime (hour minute second : Nat) : Bool := hour ≤ 23 && minute ≤ 59 && second ≤ 60

/-- A part of a date: a number of so many digits, or a character. -/
inductive Part where
  | number (width : Nat)
  | mark (c : Char)
deriving DecidableEq, Repr

def dayParts : List Part := [.number 4, .mark '-', .number 2, .mark '-', .number 2]

def timeParts : List Part :=
  [.mark 'T', .number 2, .mark ':', .number 2, .mark ':', .number 2, .mark 'Z']

def momentParts : List Part := dayParts ++ timeParts

/-- The text has the form of the parts, up to the script of its digits. -/
def hasForm : List Part → List Char → Bool
  | [], s => s.isEmpty
  | .number width :: parts, s =>
    (s.take width).length == width && (s.take width).all Text.isDecimal &&
      hasForm parts (s.drop width)
  | .mark _ :: _, [] => false
  | .mark c :: parts, d :: s => d == c && hasForm parts s

/-- The numbers in a text. Each is read as far as there are digits, all of which are ASCII, and no
farther than it is wide. -/
def readParts : List Part → List Char → Option (List Nat)
  | [], s => if s.isEmpty then some [] else none
  | .number width :: parts, s =>
    let digits := (s.take width).takeWhile Char.isDigit
    if digits.isEmpty then none
    else (number? digits).bind fun n => (readParts parts (s.drop digits.length)).map (n :: ·)
  | .mark _ :: _, [] => none
  | .mark c :: parts, d :: s => if d == c then readParts parts s else none

/-- The numbers are those of a day that exists, or of such a day and a time. -/
def exists? : List Nat → Bool
  | [year, month, day] => isDay year month day
  | [year, month, day, hour, minute, second] => isDay year month day && isTime hour minute second
  | _ => false

def valid (s : String) : Bool :=
  (hasForm dayParts s.toList || hasForm momentParts s.toList) &&
    (readParts (if s.utf8ByteSize == 10 then dayParts else momentParts) s.toList).any exists?

def validate (s : String) : Except Error Unit :=
  if valid s then .ok () else .error (.invalidDate s)

end Harvest.Datestamp
