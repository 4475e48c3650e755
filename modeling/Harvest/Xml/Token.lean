import Harvest.Text.Piece
import Harvest.Xml.Letter

/-!
The tokens of an XML document: tags, runs of text, literal sections, and remarks. `Token.next` reads
one token and returns what follows it; `Token.all` reads a document to its end. References are left
in texts and attribute values as written. A document type declaration is not a token.
-/
namespace Harvest.Xml

/-- A name as written: what stands before the colon, or nothing, and what stands after it. -/
structure QName where
  qualifier : String
  base : String
deriving DecidableEq, Repr

inductive Token where
  | opening (name : QName) (attributes : List (QName × List Char)) (closed : Bool)
  | closing (name : QName)
  | text (raw : List Char)
  | literal (raw : List Char)
  | remark

def skipSpaces (s : List Char) : List Char := s.dropWhile isSpace

/-- The name made of a run of name characters. It has one colon at most, and neither part begins
with a character that cannot begin a name; only the part before the colon may be empty. -/
def QName.ofRun (run : List Char) : Option QName :=
  let starts (part : List Char) : Bool := part.head?.all isNameStart
  match run.splitOn ':' with
  | [base] => if !base.isEmpty && starts base then some ⟨"", String.ofList base⟩ else none
  | [qualifier, base] =>
    if starts qualifier && !base.isEmpty && starts base then
      some ⟨String.ofList qualifier, String.ofList base⟩
    else none
  | _ => none

def readName (s : List Char) : Option (QName × List Char) :=
  (QName.ofRun (s.takeWhile isNamePart)).map fun name => (name, s.dropWhile isNamePart)

/-- A quoted value. It may hold neither its own quote nor the start of a tag. -/
def readQuoted : List Char → Option (List Char × List Char)
  | [] => none
  | quote :: rest =>
    if quote == '"' || quote == '\'' then
      let inside (c : Char) : Bool := c != quote && c != '<'
      let value := rest.takeWhile inside
      match rest.dropWhile inside with
      | c :: rest => if c == quote && value.all isAllowed then some (value, rest) else none
      | [] => none
    else none

def readAttribute (s : List Char) : Option ((QName × List Char) × List Char) := do
  let (name, rest) ← readName s
  match skipSpaces rest with
  | '=' :: rest => do
    let (value, rest) ← readQuoted (skipSpaces rest)
    some ((name, value), rest)
  | _ => none

/-- The rest of an opening tag behind its name: attributes, each after a blank, and the end of the
tag. `limit` bounds the number of attributes. -/
def readAttributes : Nat → List Char → Option (List (QName × List Char) × Bool × List Char)
  | 0, _ => none
  | limit + 1, s =>
    match skipSpaces s with
    | '>' :: rest => some ([], false, rest)
    | '/' :: rest =>
      match rest with
      | '>' :: rest => some ([], true, rest)
      | _ => none
    | t =>
      if s.head?.any isSpace then do
        let (first, rest) ← readAttribute t
        let (more, closed, rest) ← readAttributes limit rest
        some (first :: more, closed, rest)
      else none

def readOpening (s : List Char) : Option (Token × List Char) := do
  let (name, rest) ← readName s
  let (attributes, closed, rest) ← readAttributes (rest.length + 1) rest
  some (.opening name attributes closed, rest)

def readClosing (s : List Char) : Option (Token × List Char) := do
  let (name, rest) ← readName s
  match skipSpaces rest with
  | '>' :: rest => some (.closing name, rest)
  | _ => none

/-- Two hyphens in a row end a comment, so none stand inside it or at its end. -/
def readComment (s : List Char) : Option (Token × List Char) := do
  let (inside, rest) ← Text.cutAt ['-', '-', '>'] s
  if inside.all isAllowed && !Text.holds inside ['-', '-'] && inside.getLast? != some '-' then
    some (.remark, rest)
  else none

def readLiteral (s : List Char) : Option (Token × List Char) := do
  let (raw, rest) ← Text.cutAt [']', ']', '>'] s
  if raw.all isAllowed then some (.literal raw, rest) else none

/-- A processing instruction behind its opening mark. Its target is a name, and it is not an XML
declaration. -/
def readInstruction (s : List Char) : Option (Token × List Char) := do
  if Text.startsWith s ['x', 'm', 'l', ' '] || !s.head?.any isNameStart then none
  else
    let (inside, rest) ← Text.cutAt ['?', '>'] (skipSpaces (s.dropWhile isNamePart))
    if inside.all isAllowed then some (.remark, rest) else none

def readText (s : List Char) : Option (Token × List Char) :=
  let raw := s.takeWhile (· != '<')
  if raw.all isAllowed && !Text.holds raw [']', ']', '>'] then
    some (.text raw, s.dropWhile (· != '<'))
  else none

def Token.next : List Char → Option (Token × List Char)
  | '<' :: '!' :: '-' :: '-' :: rest => readComment rest
  | '<' :: '!' :: '[' :: 'C' :: 'D' :: 'A' :: 'T' :: 'A' :: '[' :: rest => readLiteral rest
  | '<' :: '?' :: rest => readInstruction rest
  | '<' :: '/' :: rest => readClosing rest
  | '<' :: rest => readOpening rest
  | s => readText s

/-- All tokens of a text. Each takes at least one character, so that the length of the text is
enough of a limit. -/
def Token.upTo : Nat → List Char → Option (List Token)
  | _, [] => some []
  | 0, _ => none
  | limit + 1, s =>
    match Token.next s with
    | some (token, rest) => (Token.upTo limit rest).map (token :: ·)
    | none => none

def Token.all (s : List Char) : Option (List Token) := Token.upTo s.length s

end Harvest.Xml
