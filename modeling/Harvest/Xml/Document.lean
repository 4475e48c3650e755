import Harvest.Xml.Reference
import Harvest.Xml.Token
import Harvest.Xml.Tree

/-!
Documents: the tree of a sequence of tokens, with names resolved to namespaces, and the reading of a
whole document. A document has one root element, with nothing but blanks and remarks around it. Tags
balance, prefixes are declared, and no attribute is given twice.
-/
namespace Harvest.Xml

/-- The namespace of namespace declarations themselves, which nothing may be bound to. -/
def declarationSpace : String := "http://www.w3.org/2000/xmlns/"

/-- Prefixes with their namespaces, inner declarations first; the empty prefix is the default. -/
abbrev Scope := List (String × String)

/-- The declaration of `qualifier` for `uri` behind those of the same tag. The prefix `xml` is bound
to its own namespace and to no other, and no other prefix is bound to that one. -/
def declare (own : Scope) (qualifier uri : String) : Option Scope :=
  if uri == declarationSpace then none
  else if qualifier == "xml" then if uri == xmlSpace then some own else none
  else if uri == xmlSpace then none
  else if !qualifier.isEmpty && (own.lookup qualifier).isSome then none
  else some (own ++ [(qualifier, uri)])

/-- The namespace declarations of a tag and its other attributes, in order. -/
def sortAttributes : List (QName × List Char) → Option (Scope × List (QName × String))
  | given =>
    given.foldlM (fun (own, others) (name, raw) => do
      let value ← valueOfRaw raw
      if name.qualifier == "xmlns" then do
        let own ← declare own name.base value
        some (own, others)
      else if name.base == "xmlns" then do
        let own ← declare own "" value
        some (own, others)
      else some (own, others ++ [(name, value)])) ([], [])

/-- An element without prefix belongs to the default namespace, if there is one. -/
def spaceOfElement (scope : Scope) (name : QName) : Option (Option String) :=
  match scope.lookup name.qualifier with
  | some uri => some (some uri)
  | none => if name.qualifier.isEmpty then some none else none

/-- An attribute without prefix belongs to no namespace. -/
def spaceOfAttribute (scope : Scope) (name : QName) : Option (Option String) :=
  if name.qualifier == "xml" then some (some xmlSpace)
  else if name.qualifier.isEmpty then some none
  else (scope.lookup name.qualifier).map some

def resolveAttributes (scope : Scope) (given : List (QName × String)) : Option (List Attribute) :=
  given.foldlM (fun done (name, value) => do
    let space ← spaceOfAttribute scope name
    if done.any fun a => a.space == space && a.name == name.base then none
    else some (done ++ [{ space, name := name.base, value }])) []

/-- An element whose closing tag has not come yet. Its content is kept last node first. -/
structure Frame where
  name : QName
  space : Option String
  attributes : List Attribute
  scope : Scope
  content : List Node

def Frame.ofTag? (outer : Scope) (name : QName) (given : List (QName × List Char)) :
    Option Frame := do
  if name.qualifier == "xmlns" then none
  else
    let (own, others) ← sortAttributes given
    let scope := own ++ outer
    let attributes ← resolveAttributes scope others
    let space ← spaceOfElement scope name
    some { name, space, attributes, scope, content := [] }

def Frame.toElement (f : Frame) : Element :=
  .mk f.name.base f.space f.attributes f.content.reverse

/-- Texts that follow each other are one text. -/
def Frame.addText (f : Frame) (s : List Char) : Frame :=
  match f.content with
  | .text t :: earlier => { f with content := .text (t ++ String.ofList s) :: earlier }
  | content => { f with content := .text (String.ofList s) :: content }

def Frame.addNode (f : Frame) (n : Node) : Frame := { f with content := n :: f.content }

/-- A document read in part: the open elements, innermost first, and the root once it is closed. -/
structure Growing where
  opened : List Frame
  root : Option Element

namespace Growing

def start : Growing := { opened := [], root := none }

def finishElement (outer : List Frame) (root : Option Element) (e : Element) : Option Growing :=
  match outer with
  | [] => if root.isSome then none else some { opened := [], root := some e }
  | f :: outer => some { opened := f.addNode (.element e) :: outer, root }

def step (g : Growing) : Token → Option Growing
  | .text raw =>
    match g.opened with
    | [] => if raw.all isSpace then some g else none
    | f :: outer => do
      let s ← textOfRaw raw
      some { g with opened := f.addText s :: outer }
  | .literal raw =>
    match g.opened with
    | [] => none
    | f :: outer => some { g with opened := f.addText (textOfLiteral raw) :: outer }
  | .remark =>
    match g.opened with
    | [] => some g
    | f :: outer => some { g with opened := f.addNode .remark :: outer }
  | .opening name given closed =>
    if g.opened.isEmpty && g.root.isSome then none
    else do
      let f ← Frame.ofTag? ((g.opened.head?.map Frame.scope).getD []) name given
      if closed then finishElement g.opened g.root f.toElement
      else some { g with opened := f :: g.opened }
  | .closing name =>
    match g.opened with
    | [] => none
    | f :: outer => if f.name == name then finishElement outer g.root f.toElement else none

/-- The root element of a document read to its end. -/
def finish (g : Growing) : Option Element := if g.opened.isEmpty then g.root else none

end Growing

/-- The root of the tree that some tokens make up. -/
def Element.ofTokens? (tokens : List Token) : Option Element :=
  (tokens.foldlM Growing.step Growing.start).bind Growing.finish

/-- Blanks inside the XML declaration: there are some, unless it ends here. -/
def declarationGap (s : List Char) : Option (List Char) :=
  if s.head?.any isSpace then some (skipSpaces s)
  else if s.isEmpty || Text.startsWith s ['?', '>'] then some s
  else none

/-- What follows an XML declaration, given from behind its opening mark on: a version, and perhaps
an encoding and a word on standing alone, in this order. -/
def readDeclaration (s : List Char) : Option (List Char) := do
  let s ← declarationGap s
  if Text.startsWith s "version".toList then
    let (_, s) ← readAttribute s
    let s ← declarationGap s
    let s ← if Text.startsWith s "encoding".toList then do
        let (_, s) ← readAttribute s
        declarationGap s
      else some s
    let s ← if Text.startsWith s "standalone".toList then do
        let (_, s) ← readAttribute s
        some s
      else some s
    Text.after? ['?', '>'] (skipSpaces s)
  else none

/-- The document behind a byte order mark and an XML declaration. -/
def skipProlog (s : List Char) : Option (List Char) :=
  let s := (Text.after? ['\uFEFF'] s).getD s
  if Text.startsWith s "<?xml ".toList then readDeclaration (s.drop 5) else some s

/-- The root element of a document, or `none` if the text is not well-formed. -/
def parse? (document : String) : Option Element := do
  let s ← skipProlog document.toList
  let tokens ← Token.all s
  Element.ofTokens? tokens

end Harvest.Xml
