/-!
Letter case. Keywords and URL schemes are ASCII, and texts are folded only to be compared with
them. Of the full Unicode case mappings only the part that produces an ASCII character can decide
such a comparison, and only that part is kept: every other character stays as it is, and neither it
nor its image is ASCII.
-/
namespace Harvest.Text

def lowerChar (c : Char) : List Char :=
  if c == '\u212A' then ['k']
  else if c == '\u0130' then ['i', '\u0307']
  else [c.toLower]

/-- Lower case as far as ASCII characters come out of it. -/
def lower (s : List Char) : List Char := s.flatMap lowerChar

/-- The characters outside ASCII whose upper case has ASCII letters in it. -/
def upperSpecials : List (Char × List Char) :=
  [('\u00DF', ['S', 'S']), ('\u0131', ['I']), ('\u0149', ['\u02BC', 'N']),
   ('\u017F', ['S']), ('\u01F0', ['J', '\u030C']),
   ('\u1E96', ['H', '\u0331']), ('\u1E97', ['T', '\u0308']), ('\u1E98', ['W', '\u030A']),
   ('\u1E99', ['Y', '\u030A']), ('\u1E9A', ['A', '\u02BE']), ('\uFB00', ['F', 'F']),
   ('\uFB01', ['F', 'I']), ('\uFB02', ['F', 'L']), ('\uFB03', ['F', 'F', 'I']),
   ('\uFB04', ['F', 'F', 'L']), ('\uFB05', ['S', 'T']), ('\uFB06', ['S', 'T'])]

def upperChar (c : Char) : List Char := (upperSpecials.lookup c).getD [c.toUpper]

/-- Upper case as far as ASCII characters come out of it. -/
def upper (s : List Char) : List Char := s.flatMap upperChar

/-- Equality up to the case of ASCII letters alone. -/
def sameAscii (a b : String) : Bool := a.toList.map Char.toLower == b.toList.map Char.toLower

end Harvest.Text
