/-!
Blank characters and what is built on them: trimming, the words of a text, and texts that hold
something. A character is blank when Unicode gives it the property White_Space.
-/
namespace Harvest.Text

def isBlank (c : Char) : Bool :=
  let n := c.toNat
  (0x09 ≤ n && n ≤ 0x0D) || n == 0x20 || n == 0x85 || n == 0xA0 || n == 0x1680 ||
    (0x2000 ≤ n && n ≤ 0x200A) || n == 0x2028 || n == 0x2029 || n == 0x202F || n == 0x205F ||
    n == 0x3000

def trimStart (s : List Char) : List Char := s.dropWhile isBlank

def trimEnd : List Char → List Char
  | [] => []
  | c :: rest =>
    match trimEnd rest with
    | [] => if isBlank c then [] else [c]
    | d :: kept => c :: d :: kept

/-- Blanks at both ends are taken off; those inside stay. -/
def trimChars (s : List Char) : List Char := trimEnd (trimStart s)

def trim (s : String) : String := String.ofList (trimChars s.toList)

/-- A text that holds nothing but blanks, or nothing at all. -/
def blank (s : String) : Bool := s.toList.all isBlank

/-- The text itself if it holds any character. -/
def nonEmpty (s : String) : Option String := if s.isEmpty then none else some s

/-- The trimmed text if anything is left of it. -/
def content (s : String) : Option String := nonEmpty (trim s)

/-- Words are the longest runs of characters that are not blank. `pending` is the word being read,
last character first. -/
def wordsFrom (pending : List Char) : List Char → List (List Char)
  | [] => if pending.isEmpty then [] else [pending.reverse]
  | c :: rest =>
    if isBlank c then
      if pending.isEmpty then wordsFrom [] rest else pending.reverse :: wordsFrom [] rest
    else wordsFrom (c :: pending) rest

def wordsOf (s : List Char) : List (List Char) := wordsFrom [] s

def words (s : String) : List String := (wordsOf s.toList).map String.ofList

end Harvest.Text
