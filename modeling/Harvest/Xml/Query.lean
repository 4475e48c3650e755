import Harvest.Text.Blank
import Harvest.Xml.Tree

/-!
Looking things up in an element. There are two ways to read it. The metadata of a record are read
with `text`, which takes everything inside, and with attributes that have no namespace. Protocol
responses are read with `leadText`, which takes the first node alone, and only if it is text, and
with attributes in whatever namespace.
-/
namespace Harvest.Xml.Element

def children (e : Element) : List Element := elementsOf e.content

def childrenNamed (tag : String) (e : Element) : List Element :=
  e.children.filter (·.name == tag)

def child? (tag : String) (e : Element) : Option Element := e.children.find? (·.name == tag)

/-- The elements of that name inside an element, in document order. -/
def descendants (tag : String) (e : Element) : List Element := e.inner.filter (·.name == tag)

/-- The element reached by the names of a path, each the first child of its name. -/
def along : List String → Element → Option Element
  | [], e => some e
  | tag :: rest, e => (e.child? tag).bind (along rest)

/-- The element at a path whose steps are parted by slashes. -/
def atPath? (path : String) (e : Element) : Option Element :=
  along ((path.toList.splitOn '/').map String.ofList) e

def text (e : Element) : String := String.ofList (Text.trimChars e.characters)

/-- The text if there is any beside blanks. -/
def content? (e : Element) : Option String := Text.nonEmpty e.text

def childText? (tag : String) (e : Element) : Option String := (e.child? tag).bind content?

def pathText? (path : String) (e : Element) : Option String := (e.atPath? path).bind content?

def childTexts (tag : String) (e : Element) : List String :=
  (e.childrenNamed tag).filterMap content?

def attributeIn? (space : Option String) (name : String) (e : Element) : Option String :=
  (e.attributes.find? fun a => a.space == space && a.name == name).map (·.value)

/-- The first attribute of that name in whatever namespace. Protocol responses are read with this.
-/
def attributeNamed? (name : String) (e : Element) : Option String :=
  (e.attributes.find? fun a => a.name == name).map (·.value)

/-- An attribute without namespace, as written. -/
def attribute? (name : String) (e : Element) : Option String := e.attributeIn? none name

/-- An attribute without namespace, trimmed, if anything is left of it. -/
def attributeText? (name : String) (e : Element) : Option String :=
  (e.attribute? name).bind Text.content

/-- The language an element is marked with. -/
def language? (e : Element) : Option String :=
  (e.attributeIn? (some xmlSpace) "lang").bind Text.content

/-- The text an element begins with, trimmed; empty if it begins with anything else. -/
def leadText (e : Element) : String :=
  match e.content with
  | .text s :: _ => Text.trim s
  | _ => ""

def childLeadText? (tag : String) (e : Element) : Option String :=
  (e.child? tag).bind fun c => Text.nonEmpty c.leadText

/-- The first element of that name in the document whose root this is, the root included. -/
def anywhere? (tag : String) (root : Element) : Option Element :=
  if root.name == tag then some root else root.descendant? tag

/-- All elements of the document whose root this is. -/
def everywhere (root : Element) : List Element := root :: root.inner

end Harvest.Xml.Element
