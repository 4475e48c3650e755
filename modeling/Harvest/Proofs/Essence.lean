import Harvest.Crosswalk
import Mathlib.Data.List.Basic
import Mathlib.Data.List.Find
import Mathlib.Data.Option.Basic

/-!
What of a metadata tree counts. Elements are looked up by their local names, attributes without
namespace, and texts are taken as a whole. So the namespaces of elements may be dropped, the
attributes with a namespace other than the language, the remarks, and the places where a text is
parted into pieces. Every question asked of a tree has the same answer on what is left of it.
-/
namespace Harvest.Essence

open Xml

/-- An attribute that is looked at: one without namespace, or the language. -/
def counts (a : Attribute) : Bool :=
  a.space.isNone || (a.space == some xmlSpace && a.name == "lang")

/-- A text put before some content, as one piece with the text that is there. -/
def joinText (s : String) : List Node → List Node
  | .text t :: rest => .text (s ++ t) :: rest
  | content => if s.isEmpty then content else .text s :: content

/-- The attribute in which metadata declare their schema. -/
def locates (a : Attribute) : Bool :=
  a.space == some Record.schemaSpace && a.name == "schemaLocation"

mutual

/-- An element without what does not count. -/
def essence : Element → Element
  | .mk name _ attributes content => .mk name none (attributes.filter counts) (essenceOf content)

/-- Texts that follow each other are one text, and a text without characters is none. -/
def essenceOf : List Node → List Node
  | [] => []
  | .element e :: rest => .element (essence e) :: essenceOf rest
  | .text s :: rest => joinText s (essenceOf rest)
  | .remark :: rest => essenceOf rest

end

variable (e : Element) (content : List Node) (tag name s : String)

/-! Elements and texts -/

theorem joinText_cases :
    (∃ t rest, content = .text t :: rest) ∨
      ∀ s, joinText s content = if s = "" then content else .text s :: content := by
  cases content with
  | nil => exact Or.inr fun s => by simp [joinText]
  | cons n rest =>
    cases n with
    | element e => exact Or.inr fun s => by simp [joinText]
    | text t => exact Or.inl ⟨t, rest, rfl⟩
    | remark => exact Or.inr fun s => by simp [joinText]

theorem joinText_joinText (t : String) :
    joinText s (joinText t content) = joinText (s ++ t) content := by
  rcases joinText_cases content with ⟨u, rest, rfl⟩ | hjoin
  · rw [joinText, joinText, joinText, String.append_assoc]
  · by_cases ht : t = ""
    · rw [hjoin t, if_pos ht, ht, String.append_empty]
    · have hboth : s ++ t ≠ "" := by
        intro hnone
        exact ht (String.append_eq_empty_iff.mp hnone).2
      rw [hjoin t, if_neg ht, joinText, hjoin, if_neg hboth]

/-- What passes over texts passes over a text that is put before. -/
theorem apply_joinText {α : Type} (f : List Node → α)
    (hf : ∀ t rest, f (.text t :: rest) = f rest) : f (joinText s content) = f content := by
  rcases joinText_cases content with ⟨t, rest, rfl⟩ | hjoin
  · rw [joinText, hf, hf]
  · rw [hjoin]
    split
    · rfl
    · exact hf s content

@[simp] theorem charactersOf_joinText :
    charactersOf (joinText s content) = s.toList ++ charactersOf content := by
  rcases joinText_cases content with ⟨t, rest, rfl⟩ | hjoin
  · rw [joinText, charactersOf, charactersOf, String.toList_append, List.append_assoc]
  · rw [hjoin]
    split
    case isTrue hs => rw [hs, String.toList_empty, List.nil_append]
    case isFalse => rw [charactersOf]

@[simp] theorem name_essence : (essence e).name = e.name := by
  cases e
  rw [essence, Element.name, Element.name]

theorem elementsOf_essenceOf :
    elementsOf (essenceOf content) = (elementsOf content).map essence := by
  induction content with
  | nil => rfl
  | cons n rest ih =>
    cases n with
    | element e => simp only [essenceOf, elementsOf, ih, List.map_cons]
    | text s => rw [essenceOf, apply_joinText _ s elementsOf fun _ _ => rfl, ih, elementsOf]
    | remark => simp only [essenceOf, elementsOf, ih]

mutual

theorem inner_essence : ∀ e : Element, (essence e).inner = e.inner.map essence
  | .mk name space attributes content => by
    simp only [essence, Element.inner]
    exact innerOf_essenceOf content

theorem innerOf_essenceOf :
    ∀ content : List Node, innerOf (essenceOf content) = (innerOf content).map essence
  | [] => rfl
  | .element e :: rest => by
    simp only [essenceOf, innerOf, inner_essence e, innerOf_essenceOf rest, List.map_cons,
      List.map_append]
  | .text s :: rest => by
    rw [essenceOf, apply_joinText _ s innerOf fun _ _ => rfl, innerOf_essenceOf rest, innerOf]
  | .remark :: rest => by simp only [essenceOf, innerOf, innerOf_essenceOf rest]

end

mutual

theorem descendant?_essence (tag : String) :
    ∀ e : Element, (essence e).descendant? tag = (e.descendant? tag).map essence
  | .mk name space attributes content => by
    simp only [essence, Element.descendant?]
    exact firstNamed?_essenceOf tag content

theorem firstNamed?_essenceOf (tag : String) : ∀ content : List Node,
    firstNamed? tag (essenceOf content) = (firstNamed? tag content).map essence
  | [] => rfl
  | .element e :: rest => by
    simp only [essenceOf, firstNamed?, name_essence, descendant?_essence tag e,
      firstNamed?_essenceOf tag rest]
    by_cases hname : e.name == tag
    · simp only [hname, if_true, Option.map_some]
    · simp only [hname, Bool.false_eq_true, if_false]
      cases e.descendant? tag with
      | none => rfl
      | some found => rfl
  | .text s :: rest => by
    rw [essenceOf, apply_joinText _ s (firstNamed? tag) fun _ _ => rfl,
      firstNamed?_essenceOf tag rest, firstNamed?]
  | .remark :: rest => by simp only [essenceOf, firstNamed?, firstNamed?_essenceOf tag rest]

end

mutual

theorem characters_essence : ∀ e : Element, (essence e).characters = e.characters
  | .mk name space attributes content => by
    simp only [essence, Element.characters]
    exact charactersOf_essenceOf content

theorem charactersOf_essenceOf :
    ∀ content : List Node, charactersOf (essenceOf content) = charactersOf content
  | [] => rfl
  | .element e :: rest => by
    simp only [essenceOf, charactersOf, characters_essence e, charactersOf_essenceOf rest]
  | .text s :: rest => by
    simp only [essenceOf, charactersOf, charactersOf_joinText, charactersOf_essenceOf rest]
  | .remark :: rest => by simp only [essenceOf, charactersOf, charactersOf_essenceOf rest]

end

/-! Questions asked of an element -/

@[simp] theorem children_essence : (essence e).children = e.children.map essence := by
  cases e with
  | mk name space attributes content =>
    simp only [essence, Element.children, Element.content]
    exact elementsOf_essenceOf content

@[simp] theorem childrenNamed_essence :
    (essence e).childrenNamed tag = (e.childrenNamed tag).map essence := by
  simp [Element.childrenNamed, List.filter_map, Function.comp_def]

@[simp] theorem child?_essence : (essence e).child? tag = (e.child? tag).map essence := by
  simp [Element.child?, List.find?_map]

@[simp] theorem descendants_essence :
    (essence e).descendants tag = (e.descendants tag).map essence := by
  simp [Element.descendants, inner_essence, List.filter_map, Function.comp_def]

attribute [simp] descendant?_essence

@[simp] theorem text_essence : (essence e).text = e.text := by
  simp only [Element.text, characters_essence]

@[simp] theorem content?_essence : (essence e).content? = e.content? := by
  simp only [Element.content?, text_essence]

@[simp] theorem childText?_essence : (essence e).childText? tag = e.childText? tag := by
  simp [Element.childText?, Option.bind_map]

@[simp] theorem childTexts_essence : (essence e).childTexts tag = e.childTexts tag := by
  simp [Element.childTexts, List.filterMap_map]

/-- Attributes that count are found. -/
theorem find?_filter_of_imp {p q : Attribute → Bool} (h : ∀ a, q a = true → p a = true)
    (attributes : List Attribute) : (attributes.filter p).find? q = attributes.find? q := by
  rw [List.find?_filter]
  congr 1
  funext a
  cases hq : q a with
  | true => simp [h a hq]
  | false => simp

@[simp] theorem attribute?_essence : (essence e).attribute? name = e.attribute? name := by
  cases e with
  | mk tag space attributes content =>
    simp only [essence, Element.attribute?, Element.attributeIn?, Element.attributes]
    rw [find?_filter_of_imp]
    intro a ha
    simp only [Bool.and_eq_true, beq_iff_eq] at ha
    simp [counts, ha.1]

@[simp] theorem attributeText?_essence :
    (essence e).attributeText? name = e.attributeText? name := by
  simp only [Element.attributeText?, attribute?_essence]

@[simp] theorem language?_essence : (essence e).language? = e.language? := by
  cases e with
  | mk tag space attributes content =>
    simp only [essence, Element.language?, Element.attributeIn?, Element.attributes]
    rw [find?_filter_of_imp]
    intro a ha
    simp only [Bool.and_eq_true, beq_iff_eq] at ha
    simp [counts, ha.1, ha.2]

/-! Other ways to write the same -/

/-- The same element written otherwise, in one place: with a remark more, with a text parted in two,
with an element in another namespace, or with an attribute more that is never looked at. -/
inductive Reworded : Element → Element → Prop
  | remark (name : String) (space : Option String) (attributes : List Attribute)
      (before after : List Node) :
      Reworded (.mk name space attributes (before ++ after))
        (.mk name space attributes (before ++ .remark :: after))
  | parted (name : String) (space : Option String) (attributes : List Attribute)
      (before after : List Node) (s t : String) :
      Reworded (.mk name space attributes (before ++ .text (s ++ t) :: after))
        (.mk name space attributes (before ++ .text s :: .text t :: after))
  | moved (name : String) (space space' : Option String) (attributes : List Attribute)
      (content : List Node) :
      Reworded (.mk name space attributes content) (.mk name space' attributes content)
  | marked (name : String) (space : Option String) (before after : List Attribute) (a : Attribute)
      (content : List Node) (hcounts : counts a = false) (hlocates : locates a = false) :
      Reworded (.mk name space (before ++ after) content)
        (.mk name space (before ++ a :: after) content)
  | inside (name : String) (space : Option String) (attributes : List Attribute)
      (before after : List Node) {e e' : Element} (h : Reworded e e') :
      Reworded (.mk name space attributes (before ++ .element e :: after))
        (.mk name space attributes (before ++ .element e' :: after))

theorem essenceOf_append {content content' : List Node} (h : essenceOf content = essenceOf content')
    (before : List Node) : essenceOf (before ++ content) = essenceOf (before ++ content') := by
  induction before with
  | nil => exact h
  | cons n before ih =>
    cases n with
    | element e => simp only [List.cons_append, essenceOf, ih]
    | text s => simp only [List.cons_append, essenceOf, ih]
    | remark => simp only [List.cons_append, essenceOf, ih]

theorem essenceOf_remark (content : List Node) :
    essenceOf content = essenceOf (.remark :: content) := rfl

theorem essenceOf_parted (s t : String) (content : List Node) :
    essenceOf (.text (s ++ t) :: content) = essenceOf (.text s :: .text t :: content) :=
  (joinText_joinText (essenceOf content) s t).symm

theorem essenceOf_element {e e' : Element} (h : essence e = essence e') (content : List Node) :
    essenceOf (.element e :: content) = essenceOf (.element e' :: content) := by
  rw [essenceOf, essenceOf, h]

theorem essence_reworded {e e' : Element} (h : Reworded e e') : essence e = essence e' := by
  induction h with
  | remark name space attributes before after =>
    rw [essence, essence, essenceOf_append (essenceOf_remark after) before]
  | parted name space attributes before after s t =>
    rw [essence, essence, essenceOf_append (essenceOf_parted s t after) before]
  | moved name space space' attributes content => rw [essence, essence]
  | marked name space before after a content hcounts hlocates =>
    simp only [essence, List.filter_append, List.filter_cons, hcounts]
    rfl
  | inside name space attributes before after h ih =>
    rw [essence, essence, essenceOf_append (essenceOf_element ih after) before]

end Harvest.Essence
