/-!
Elements of an XML document, with the questions that are asked of them. Elements and attributes are
looked up by their local names; the namespaces are kept beside them. Comments and processing
instructions stay in the tree as remarks without content, because they part the texts around them.
-/
namespace Harvest.Xml

structure Attribute where
  space : Option String
  name : String
  value : String
deriving DecidableEq, Repr

mutual

inductive Element where
  | mk (name : String) (space : Option String) (attributes : List Attribute) (content : List Node)

inductive Node where
  | element (e : Element)
  | text (s : String)
  | remark

end

/-- The namespace that the prefix `xml` is bound to. -/
def xmlSpace : String := "http://www.w3.org/XML/1998/namespace"

namespace Element

def name : Element → String
  | mk name _ _ _ => name

def space : Element → Option String
  | mk _ space _ _ => space

def attributes : Element → List Attribute
  | mk _ _ attributes _ => attributes

def content : Element → List Node
  | mk _ _ _ content => content

end Element

/-- The elements among some nodes, in order. -/
def elementsOf : List Node → List Element
  | [] => []
  | .element e :: rest => e :: elementsOf rest
  | .text _ :: rest => elementsOf rest
  | .remark :: rest => elementsOf rest

mutual

/-- All elements inside an element, itself excluded, in document order. -/
def Element.inner : Element → List Element
  | .mk _ _ _ content => innerOf content

def innerOf : List Node → List Element
  | [] => []
  | .element e :: rest => e :: (e.inner ++ innerOf rest)
  | .text _ :: rest => innerOf rest
  | .remark :: rest => innerOf rest

end

mutual

/-- The first element inside an element that bears the name. The search stops there. -/
def Element.descendant? (tag : String) : Element → Option Element
  | .mk _ _ _ content => firstNamed? tag content

def firstNamed? (tag : String) : List Node → Option Element
  | [] => none
  | .element e :: rest =>
    if e.name == tag then some e
    else
      match e.descendant? tag with
      | some found => some found
      | none => firstNamed? tag rest
  | .text _ :: rest => firstNamed? tag rest
  | .remark :: rest => firstNamed? tag rest

end

mutual

/-- The characters of an element and of all elements inside it. -/
def Element.characters : Element → List Char
  | .mk _ _ _ content => charactersOf content

def charactersOf : List Node → List Char
  | [] => []
  | .element e :: rest => e.characters ++ charactersOf rest
  | .text s :: rest => s.toList ++ charactersOf rest
  | .remark :: rest => charactersOf rest

end

end Harvest.Xml
