import Harvest.Page
import Harvest.Proofs.Blanks
import Mathlib.Data.Nat.Notation

/-!
What a page is read for beside the metadata of its records. Of most elements on the way only the
name, the attributes and the elements inside count; of the few at the end of the way the text they
begin with counts too. `view` keeps this much of a document, and a page has the same envelope when
it is made of the view.
-/
namespace Harvest.Envelope

open Xml

/-- A page without the metadata of its records. -/
structure Cover where
  headers : List Header
  token : Option ResumptionToken
  error : Option ProtocolError
deriving DecidableEq

def cover (p : Page) : Cover where
  headers := p.records.map Record.header
  token := p.token
  error := p.error

/-- What of a cover is read from attributes, for each record and for the page. -/
structure Marks where
  deleted : List Bool
  sizes : Option (Option ℕ)
  code : Option String
deriving DecidableEq

def Cover.marks (c : Cover) : Marks where
  deleted := c.headers.map Header.deleted
  sizes := c.token.map ResumptionToken.completeListSize
  code := c.error.map ProtocolError.code

/-- The text some content begins with. -/
def begun : List Node → List Char
  | .text s :: _ => s.toList
  | _ => []

mutual

/-- What is seen of an element when the text it begins with counts where `read` says so. A place is
told by the names of the elements that are open there, innermost first; `above` are those around the
element. -/
def view (read : List String → Bool) (above : List String) : Element → Element
  | .mk name space attributes content =>
    .mk name space attributes
      ((if read (name :: above) then [.text (String.ofList (Text.trimChars (begun content)))]
        else []) ++ viewOf read (name :: above) content)

def viewOf (read : List String → Bool) (path : List String) : List Node → List Node
  | [] => []
  | .element e :: rest => .element (view read path e) :: viewOf read path rest
  | .text _ :: rest => viewOf read path rest
  | .remark :: rest => viewOf read path rest

end

/-- The places where a page reads the text that an element begins with. The name of the root does
not count. -/
def isRead : List String → Bool
  | [name, _] => name == "error"
  | [name, list, _] => name == "resumptionToken" && list == "ListRecords"
  | [name, header, record, list, _] =>
    ["identifier", "datestamp", "setSpec"].contains name && header == "header" &&
      record == "record" && list == "ListRecords"
  | _ => false

/-! Questions asked of a view -/

section

variable {read : List String → Bool} {above : List String} {e : Element} {tag : String}

@[simp] theorem name_view : (view read above e).name = e.name := by
  cases e
  rfl

@[simp] theorem attributes_view : (view read above e).attributes = e.attributes := by
  cases e
  rfl

@[simp] theorem attributeNamed?_view (name : String) :
    (view read above e).attributeNamed? name = e.attributeNamed? name := by
  rw [Element.attributeNamed?, attributes_view, Element.attributeNamed?]

theorem elementsOf_viewOf (path : List String) (content : List Node) :
    elementsOf (viewOf read path content) = (elementsOf content).map (view read path) := by
  induction content with
  | nil => rfl
  | cons n rest ih => cases n <;> simp only [viewOf, elementsOf, ih, List.map_cons]

theorem children_view :
    (view read above e).children = e.children.map (view read (e.name :: above)) := by
  cases e with
  | mk name space attributes content =>
    simp only [view, Element.children, Element.content, Element.name]
    split
    · rw [List.singleton_append, elementsOf, elementsOf_viewOf]
    · rw [List.nil_append, elementsOf_viewOf]

theorem trim_trim (s : String) : Text.trim (Text.trim s) = Text.trim s := by
  rw [Text.trim, Text.trim, String.toList_ofList, Blanks.trimChars_trimChars]

theorem leadText_eq (e : Element) :
    e.leadText = Text.trim (String.ofList (begun e.content)) := by
  unfold Element.leadText
  split
  · rename_i s rest hcontent
    rw [hcontent, begun, String.ofList_toList]
  · rename_i hother
    unfold begun
    split
    · rename_i s rest hcontent
      exact absurd hcontent (hother s rest)
    · rfl

theorem leadText_view (hread : read (e.name :: above) = true) :
    (view read above e).leadText = e.leadText := by
  rw [leadText_eq e]
  cases e with
  | mk name space attributes content =>
    rw [Element.name] at hread
    have htrim := trim_trim (String.ofList (begun content))
    rw [Text.trim, Text.trim, String.toList_ofList] at htrim
    simp only [view, hread, if_true, Element.leadText, Element.content, List.singleton_append,
      Text.trim, String.toList_ofList] at htrim ⊢
    exact htrim

/-- The first child of a name is the view of the first child of that name. -/
theorem child?_view {α : Type} {f g : Element → α}
    (h : ∀ c : Element, c.name = tag → f (view read (e.name :: above) c) = g c) :
    ((view read above e).child? tag).map f = (e.child? tag).map g := by
  have hname : ((fun c : Element => c.name == tag) ∘ view read (e.name :: above)) =
      fun c => c.name == tag := by
    funext c
    simp
  rw [Element.child?, children_view, List.find?_map, hname, Option.map_map, ← Element.child?]
  cases hchild : e.child? tag with
  | none => rfl
  | some c => exact congrArg some (h c (by simpa using List.find?_some hchild))

theorem childrenNamed_view {α : Type} {f g : Element → α}
    (h : ∀ c : Element, c.name = tag → f (view read (e.name :: above) c) = g c) :
    ((view read above e).childrenNamed tag).map f = (e.childrenNamed tag).map g := by
  have hname : ((fun c : Element => c.name == tag) ∘ view read (e.name :: above)) =
      fun c => c.name == tag := by
    funext c
    simp
  rw [Element.childrenNamed, children_view, List.filter_map, hname, List.map_map,
    ← Element.childrenNamed]
  refine List.map_congr_left fun c hc => h c ?_
  simpa using (List.mem_filter.mp hc).2

end

/-! The parts of a page -/

section

variable {e : Element} {root : String}

theorem header_view (he : e.name = "header") :
    Header.ofElement (view isRead ["record", "ListRecords", root] e) = Header.ofElement e := by
  have hlead (tag : String) (htag : ["identifier", "datestamp", "setSpec"].contains tag = true)
      (c : Element) (hc : c.name = tag) :
      (view isRead (e.name :: ["record", "ListRecords", root]) c).leadText = c.leadText := by
    refine leadText_view ?_
    rw [hc, he, isRead, htag]
    rfl
  have hidentifier := child?_view (hlead "identifier" rfl)
  have hdatestamp : (view isRead ["record", "ListRecords", root] e).childLeadText? "datestamp" =
      e.childLeadText? "datestamp" := by
    have h := congrArg (Option.bind · Text.nonEmpty) (child?_view (hlead "datestamp" rfl))
    simp only [Option.bind_map] at h
    exact h
  have hsets : ((view isRead ["record", "ListRecords", root] e).childrenNamed "setSpec").filterMap
      (fun s => Text.nonEmpty s.leadText) =
        (e.childrenNamed "setSpec").filterMap fun s => Text.nonEmpty s.leadText := by
    have h := congrArg (List.filterMap Text.nonEmpty) (childrenNamed_view (hlead "setSpec" rfl))
    simp only [List.filterMap_map] at h
    exact h
  rw [Header.ofElement, Header.ofElement, hidentifier, hdatestamp, hsets, attributeNamed?_view]

theorem record_view (he : e.name = "record") :
    (Record.ofElement (view isRead ["ListRecords", root] e)).header =
      (Record.ofElement e).header := by
  have h : ((view isRead ["ListRecords", root] e).child? "header").map Header.ofElement =
      (e.child? "header").map Header.ofElement :=
    child?_view fun c hc => by
      rw [he]
      exact header_view hc
  simp only [Record.ofElement, h]

theorem token_view (he : e.name = "resumptionToken") :
    ResumptionToken.ofElement (view isRead ["ListRecords", root] e) =
      ResumptionToken.ofElement e := by
  rw [ResumptionToken.ofElement, ResumptionToken.ofElement, attributeNamed?_view,
    leadText_view (by rw [he]; rfl)]

theorem error_view (he : e.name = "error") :
    ProtocolError.ofElement (view isRead [root] e) = ProtocolError.ofElement e := by
  rw [ProtocolError.ofElement, ProtocolError.ofElement, attributeNamed?_view,
    leadText_view (by rw [he]; rfl)]

end

/-- The parts a cover is made of: the records in a list, its token, and the error. -/
theorem cover_ofElement (root : Element) : cover (Page.ofElement root) =
    { headers := (((root.child? "ListRecords").map fun list =>
        (list.childrenNamed "record").map fun r => (Record.ofElement r).header).getD []),
      token := ((root.child? "ListRecords").map fun list =>
        (list.child? "resumptionToken").map ResumptionToken.ofElement).bind id,
      error := (root.child? "error").map ProtocolError.ofElement } := by
  unfold Page.ofElement cover
  cases root.child? "ListRecords" with
  | none => rfl
  | some list => simp only [List.map_map, Option.map_some, Option.getD_some]; rfl

theorem deleted_ofElement (e : Element) : (Record.ofElement e).deleted =
    ((e.child? "header").map fun h => (Header.ofElement h).deleted).getD false := by
  rw [Record.deleted, Record.ofElement]
  cases e.child? "header" <;> rfl

theorem marks_ofElement (root : Element) : (cover (Page.ofElement root)).marks =
    { deleted := (((root.child? "ListRecords").map fun list =>
        (list.childrenNamed "record").map fun r => (Record.ofElement r).deleted).getD []),
      sizes := ((root.child? "ListRecords").map fun list =>
        (list.child? "resumptionToken").map fun t =>
          (ResumptionToken.ofElement t).completeListSize).bind id,
      code := (root.child? "error").map fun e => (ProtocolError.ofElement e).code } := by
  rw [cover_ofElement, Cover.marks]
  cases root.child? "ListRecords" with
  | none => simp only [Option.map_none, Option.getD_none, Option.bind_none, Option.map_map]; rfl
  | some list =>
    simp only [Option.map_some, Option.getD_some, Option.bind_some, id, Option.map_map,
      List.map_map]
    rfl

/-- A page is its view as far as its cover goes. -/
theorem cover_view (root : Element) :
    cover (Page.ofElement (view isRead [] root)) = cover (Page.ofElement root) := by
  have hlist {α : Type} {f g : Element → α}
      (h : ∀ list : Element, list.name = "ListRecords" →
        f (view isRead [root.name] list) = g list) :
      ((view isRead [] root).child? "ListRecords").map f = (root.child? "ListRecords").map g :=
    child?_view h
  have herror : ((view isRead [] root).child? "error").map ProtocolError.ofElement =
      (root.child? "error").map ProtocolError.ofElement :=
    child?_view fun c hc => error_view hc
  rw [cover_ofElement, cover_ofElement, herror]
  congr 2
  · refine hlist fun list hlist => childrenNamed_view fun r hr => ?_
    rw [hlist]
    exact record_view hr
  · refine hlist fun list hlist => child?_view fun t ht => ?_
    rw [hlist]
    exact token_view ht

/-- The marks of a page need no text at all. -/
theorem marks_view (read : List String → Bool) (root : Element) :
    (cover (Page.ofElement (view read [] root))).marks = (cover (Page.ofElement root)).marks := by
  have hlist {α : Type} {f g : Element → α}
      (h : ∀ list : Element, f (view read [root.name] list) = g list) :
      ((view read [] root).child? "ListRecords").map f = (root.child? "ListRecords").map g :=
    child?_view fun list _ => h list
  have herror : ((view read [] root).child? "error").map
      (fun e => (ProtocolError.ofElement e).code) =
        (root.child? "error").map fun e => (ProtocolError.ofElement e).code :=
    child?_view fun c _ => by
      rw [ProtocolError.ofElement, ProtocolError.ofElement, attributeNamed?_view]
  have hrecord (above : List String) (r : Element) :
      (Record.ofElement (view read above r)).deleted = (Record.ofElement r).deleted := by
    have hheader : ((view read above r).child? "header").map
        (fun h => (Header.ofElement h).deleted) =
          (r.child? "header").map fun h => (Header.ofElement h).deleted :=
      child?_view fun c _ => by rw [Header.ofElement, Header.ofElement, attributeNamed?_view]
    rw [deleted_ofElement, deleted_ofElement, hheader]
  rw [marks_ofElement, marks_ofElement, herror]
  congr 2
  · exact hlist fun list => childrenNamed_view fun r _ => hrecord _ r
  · refine hlist fun list => child?_view fun t _ => ?_
    rw [ResumptionToken.ofElement, ResumptionToken.ofElement, attributeNamed?_view]

end Harvest.Envelope
