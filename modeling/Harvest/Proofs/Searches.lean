import Harvest.Proofs.Linkage

/-!
Searches for a name in a tree of elements. An element stands at a position, and the order of
positions is that of the document. The elements of a name are listed in this order, each where it
stands; the search that stops at once finds the first of them. So an envelope around a resource
makes no difference to its document.
-/
namespace Harvest.Searches

open Xml Crosswalk

/-- Where an element stands: the numbers of the child elements on the way to it. -/
abbrev Position := List ℕ

/-- The element at a position; that at the empty one is the element itself. -/
def at? : Position → Element → Option Element
  | [], e => some e
  | i :: rest, e => (e.children[i]?).bind (at? rest)

/-- Elements of a name listed with their positions: in the order of the document, all that are
inside an element, and none twice. -/
structure Lists (tag : String) (e : Element) (found : List (Position × Element)) : Prop where
  ordered : (found.map Prod.fst).Pairwise (· < ·)
  members : ∀ p d, (p, d) ∈ found ↔ p ≠ [] ∧ at? p e = some d ∧ d.name = tag

/-- The element of that name which comes first inside another, however deep. -/
def IsFirst (tag : String) (e d : Element) : Prop :=
  ∃ p, p ≠ [] ∧ at? p e = some d ∧ d.name = tag ∧
    ∀ q b, q ≠ [] → at? q e = some b → b.name = tag → ¬ q < p

mutual

/-- A search that goes on after each find and adds it to those before. -/
def gather (tag : String) (found : List Element) : Element → List Element
  | .mk _ _ _ content => gatherOf tag found content

def gatherOf (tag : String) (found : List Element) : List Node → List Element
  | [] => found
  | .element e :: rest =>
    gatherOf tag (gather tag (if e.name == tag then found ++ [e] else found) e) rest
  | .text _ :: rest => gatherOf tag found rest
  | .remark :: rest => gatherOf tag found rest

end

mutual

/-- All that is inside an element, with positions. -/
def placed : Element → List (Position × Element)
  | .mk _ _ _ content => placedOf 0 content

def placedOf (i : ℕ) : List Node → List (Position × Element)
  | [] => []
  | .element e :: rest =>
    ([i], e) :: ((placed e).map (fun here => (i :: here.1, here.2)) ++ placedOf (i + 1) rest)
  | .text _ :: rest => placedOf i rest
  | .remark :: rest => placedOf i rest

end

/-! Positions -/

mutual

theorem placed_elements : ∀ e : Element, (placed e).map Prod.snd = e.inner
  | .mk _ _ _ content => placedOf_elements 0 content

theorem placedOf_elements (i : ℕ) : ∀ content : List Node,
    (placedOf i content).map Prod.snd = innerOf content
  | [] => rfl
  | .element e :: rest => by
    have hinner : ((placed e).map fun here => (i :: here.1, here.2)).map Prod.snd = e.inner := by
      rw [List.map_map]
      exact placed_elements e
    rw [placedOf, innerOf, List.map_cons, List.map_append, hinner, placedOf_elements (i + 1) rest]
  | .text _ :: rest => placedOf_elements i rest
  | .remark :: rest => placedOf_elements i rest

end

mutual

theorem mem_placed {p : Position} {d : Element} : ∀ e : Element,
    (p, d) ∈ placed e ↔ p ≠ [] ∧ at? p e = some d
  | .mk name space attributes content => by
    rw [placed, mem_placedOf content]
    cases p with
    | nil => simp
    | cons i rest => simp [at?, Element.children, Element.content]

theorem mem_placedOf {i : ℕ} {p : Position} {d : Element} : ∀ content : List Node,
    (p, d) ∈ placedOf i content ↔
      ∃ j rest, p = (i + j) :: rest ∧ ((elementsOf content)[j]?).bind (at? rest) = some d
  | [] => by simp [placedOf, elementsOf]
  | .element e :: rest => by
    simp only [placedOf, List.mem_cons, List.mem_append, List.mem_map, Prod.mk.injEq]
    constructor
    · rintro (⟨rfl, rfl⟩ | ⟨⟨q, b⟩, hq, rfl, rfl⟩ | hrest)
      · exact ⟨0, [], rfl, rfl⟩
      · exact ⟨0, q, rfl, ((mem_placed e).mp hq).2⟩
      · obtain ⟨j, q, rfl, hq⟩ := (mem_placedOf rest).mp hrest
        exact ⟨j + 1, q, by rw [Nat.add_assoc, Nat.add_comm 1 j], hq⟩
    · rintro ⟨j, q, rfl, hq⟩
      cases j with
      | zero =>
        rw [elementsOf, List.getElem?_cons_zero, Option.bind_some] at hq
        cases q with
        | nil => exact .inl ⟨rfl, (Option.some.inj hq).symm⟩
        | cons k q => exact .inr (.inl ⟨(k :: q, d), (mem_placed e).mpr ⟨nofun, hq⟩, rfl, rfl⟩)
      | succ j =>
        rw [elementsOf, List.getElem?_cons_succ] at hq
        refine .inr (.inr ((mem_placedOf rest).mpr ⟨j, q, ?_, hq⟩))
        rw [Nat.add_assoc, Nat.add_comm 1 j]
  | .text _ :: rest => mem_placedOf rest
  | .remark :: rest => mem_placedOf rest

end

mutual

theorem placed_ordered : ∀ e : Element, ((placed e).map Prod.fst).Pairwise (· < ·)
  | .mk _ _ _ content => placedOf_ordered 0 content

theorem placedOf_ordered (i : ℕ) : ∀ content : List Node,
    ((placedOf i content).map Prod.fst).Pairwise (· < ·)
  | [] => .nil
  | .element e :: rest => by
    have hinside : ∀ p ∈ ((placed e).map fun here => (i :: here.1, here.2)).map Prod.fst,
        ∃ k q, p = i :: k :: q := by
      intro p hp
      rw [List.map_map, List.mem_map] at hp
      obtain ⟨⟨q, b⟩, hq, rfl⟩ := hp
      obtain ⟨k, q, rfl⟩ := List.exists_cons_of_ne_nil ((mem_placed e).mp hq).1
      exact ⟨k, q, rfl⟩
    have hbehind : ∀ p ∈ (placedOf (i + 1) rest).map Prod.fst, ∃ j q, i < j ∧ p = j :: q := by
      intro p hp
      obtain ⟨⟨_, b⟩, hq, rfl⟩ := List.mem_map.mp hp
      obtain ⟨j, q, rfl, _⟩ := (mem_placedOf rest).mp hq
      exact ⟨i + 1 + j, q, by omega, rfl⟩
    have hordered : (((placed e).map fun here => (i :: here.1, here.2)).map Prod.fst).Pairwise
        (· < ·) := by
      rw [List.map_map]
      have hwithin := (placed_ordered e).map (S := (· < ·)) (i :: ·) fun p q hpq =>
        List.cons_lt_cons_iff.mpr (.inr ⟨rfl, hpq⟩)
      rwa [List.map_map] at hwithin
    -- The element, what is inside it, and what is behind it, in this order.
    rw [placedOf, List.map_cons, List.map_append, List.pairwise_cons, List.pairwise_append]
    refine ⟨?_, hordered, placedOf_ordered (i + 1) rest, ?_⟩
    · intro p hp
      rcases List.mem_append.mp hp with hp | hp
      · obtain ⟨k, q, rfl⟩ := hinside p hp
        exact List.cons_lt_cons_iff.mpr (.inr ⟨rfl, List.nil_lt_cons k q⟩)
      · obtain ⟨j, q, hij, rfl⟩ := hbehind p hp
        exact List.cons_lt_cons_iff.mpr (.inl hij)
    · intro p hp q hq
      obtain ⟨k, p, rfl⟩ := hinside p hp
      obtain ⟨j, q, hij, rfl⟩ := hbehind q hq
      exact List.cons_lt_cons_iff.mpr (.inl hij)
  | .text _ :: rest => placedOf_ordered i rest
  | .remark :: rest => placedOf_ordered i rest

end

/-! What the searches find -/

/-- The elements of a name with their positions. -/
def placedNamed (tag : String) (e : Element) : List (Position × Element) :=
  (placed e).filter fun here => here.2.name == tag

theorem lists_placedNamed (tag : String) (e : Element) : Lists tag e (placedNamed tag e) where
  ordered := (placed_ordered e).sublist (List.filter_sublist.map Prod.fst)
  members := by
    intro p d
    rw [placedNamed, List.mem_filter, mem_placed, beq_iff_eq, and_assoc]

theorem descendants_eq_placedNamed (tag : String) (e : Element) :
    e.descendants tag = (placedNamed tag e).map Prod.snd := by
  rw [Element.descendants, ← placed_elements, List.filter_map]
  rfl

mutual

/-- The search that goes on finds the same. -/
theorem gather_eq (tag : String) (found : List Element) : ∀ e : Element,
    gather tag found e = found ++ e.descendants tag
  | .mk _ _ _ content => gatherOf_eq tag found content

theorem gatherOf_eq (tag : String) (found : List Element) : ∀ content : List Node,
    gatherOf tag found content = found ++ (innerOf content).filter (·.name == tag)
  | [] => by rw [gatherOf, innerOf, List.filter_nil, List.append_nil]
  | .element e :: rest => by
    rw [gatherOf, gatherOf_eq tag _ rest, gather_eq tag _ e, innerOf, List.filter_cons,
      List.filter_append, Element.descendants]
    split
    · simp
    · simp
  | .text _ :: rest => gatherOf_eq tag found rest
  | .remark :: rest => gatherOf_eq tag found rest

end

/-- The first entry of a list is the element that comes first. -/
theorem Lists.isFirst_iff {tag : String} {e d : Element} {found : List (Position × Element)}
    (hfound : Lists tag e found) : IsFirst tag e d ↔ (found.map Prod.snd).head? = some d := by
  have hordered := hfound.ordered
  have hmembers := hfound.members
  cases found with
  | nil =>
    refine iff_of_false ?_ nofun
    rintro ⟨p, hp, hat, hname, _⟩
    exact List.not_mem_nil ((hmembers p d).mpr ⟨hp, hat, hname⟩)
  | cons here rest =>
    obtain ⟨p, b⟩ := here
    have hrest (q : Position) (c : Element) (hq : (q, c) ∈ rest) : p < q :=
      (List.pairwise_cons.mp hordered).1 q (List.mem_map_of_mem hq)
    obtain ⟨hp, hat, hname⟩ := (hmembers p b).mp List.mem_cons_self
    rw [List.map_cons, List.head?_cons, Option.some.injEq]
    constructor
    · rintro ⟨q, hq, hqat, hqname, hleast⟩
      rcases List.mem_cons.mp ((hmembers q d).mpr ⟨hq, hqat, hqname⟩) with heq | hin
      · exact (Prod.mk.inj heq).2.symm
      · -- Otherwise the entry in front would come before the first element.
        exact absurd (hrest q d hin) (hleast p b hp hat hname)
    · rintro rfl
      refine ⟨p, hp, hat, hname, fun q c hq hqat hqname hlt => ?_⟩
      rcases List.mem_cons.mp ((hmembers q c).mpr ⟨hq, hqat, hqname⟩) with heq | hin
      · rw [(Prod.mk.inj heq).1] at hlt
        exact List.lt_irrefl p hlt
      · exact List.lt_asymm (hrest q c hin) hlt

theorem descendant?_eq_some_iff {tag : String} {e d : Element} :
    e.descendant? tag = some d ↔ IsFirst tag e d := by
  rw [(lists_placedNamed tag e).isFirst_iff, ← descendants_eq_placedNamed,
    Linkage.descendants_head?]

/-! Resources in envelopes -/

theorem resourceOf_of_isFirst {envelope resource : Element} (hname : envelope.name ≠ "resource")
    (hfirst : IsFirst "resource" envelope resource) :
    DataCite.resourceOf envelope = resource := by
  rw [DataCite.resourceOf, if_neg (by simpa using hname), descendant?_eq_some_iff.mpr hfirst,
    Option.getD_some]

theorem resourceOf_resource {resource : Element} (hname : resource.name = "resource") :
    DataCite.resourceOf resource = resource := by
  rw [DataCite.resourceOf, if_pos (by simpa using hname)]

/-- The kernels see nothing of the metadata but the resource. -/
theorem map_of_resourceOf {schema : Schema}
    (hkernel : schema ∈ [Schema.dataCite2, Schema.dataCite3, Schema.dataCite4])
    {metadata metadata' : Element}
    (h : DataCite.resourceOf metadata = DataCite.resourceOf metadata') (viewUrl : Option String)
    (d : Document) : schema.map viewUrl metadata d = schema.map viewUrl metadata' d := by
  simp only [List.mem_cons, List.not_mem_nil, or_false] at hkernel
  rcases hkernel with rfl | rfl | rfl
  · simp only [Schema.map, DataCite.mapKernel2, h]
  · simp only [Schema.map, DataCite.mapKernel3, h]
  · simp only [Schema.map, DataCite.mapKernel4, h]

theorem transform_of_map {schema : Schema} {metadata metadata' : Element}
    (h : ∀ viewUrl d, schema.map viewUrl metadata d = schema.map viewUrl metadata' d)
    (context : Context) (header : Header) :
    (Crosswalk.mk (.bound schema) context).transform ⟨header, some metadata⟩ =
      (Crosswalk.mk (.bound schema) context).transform ⟨header, some metadata'⟩ := by
  simp only [Crosswalk.transform, Mapping.mapFields, Record.identifier, Record.deleted,
    Record.datestamp, h]
  rfl

/-- The searches for a name agree. One lists the elements of that name inside an element, each once
and in the order of the document, be it by picking them out or by going on after each find; the
other finds the first of them, or nothing if there is none. So the first resource in an envelope is
the one that is located, and each kernel makes the same document of the envelope as of the resource
alone. -/
theorem searches_agree :
    (∀ (tag : String) (e : Element),
      (∃ found, Lists tag e found ∧ e.descendants tag = found.map Prod.snd) ∧
      gather tag [] e = e.descendants tag ∧
      e.descendant? tag = (e.descendants tag).head? ∧
      (e.descendant? tag = none ↔ e.descendants tag = []) ∧
      ∀ d, e.descendant? tag = some d ↔ IsFirst tag e d) ∧
    ∀ envelope resource : Element, envelope.name ≠ "resource" →
      IsFirst "resource" envelope resource →
        DataCite.resourceOf envelope = resource ∧
        ∀ schema ∈ [Schema.dataCite2, Schema.dataCite3, Schema.dataCite4],
          ∀ (context : Context) (header : Header),
            (Crosswalk.mk (.bound schema) context).transform ⟨header, some envelope⟩ =
              (Crosswalk.mk (.bound schema) context).transform ⟨header, some resource⟩ := by
  constructor
  · intro tag e
    have hhead := Linkage.descendants_head? tag e
    refine ⟨⟨_, lists_placedNamed tag e, descendants_eq_placedNamed tag e⟩, gather_eq tag [] e,
      hhead.symm, ?_, fun d => descendant?_eq_some_iff⟩
    rw [← hhead, List.head?_eq_none_iff]
  · intro envelope resource hname hfirst
    have hlocated := resourceOf_of_isFirst hname hfirst
    refine ⟨hlocated, fun schema hkernel context header => ?_⟩
    obtain ⟨_, _, _, hresource, _⟩ := hfirst
    have hsame : DataCite.resourceOf envelope = DataCite.resourceOf resource := by
      rw [hlocated, resourceOf_resource hresource]
    exact transform_of_map (map_of_resourceOf hkernel hsame) context header

/-! A resource deep in an envelope, with another one inside it and one behind it -/

def publishedBy (name : String) (inside : List Node) : Element :=
  .mk "resource" none [] (.element (.mk "publisher" none [] [.text name]) :: inside)

def packed : Element :=
  .mk "oai_datacite" none []
    [.text "\n", .element (.mk "schemaVersion" none [] [.text "4"]),
      .element (.mk "payload" none []
        [.remark, .element (.mk "part" none []
          [.element (publishedBy "P" [.element (publishedBy "Q" [])])])]),
      .element (publishedBy "R" [])]

theorem packed_located :
    packed.name ≠ "resource" ∧
      IsFirst "resource" packed (publishedBy "P" [.element (publishedBy "Q" [])]) ∧
      (packed.descendants "resource").length = 3 ∧
      ∃ d, (Crosswalk.mk (.bound .dataCite4) { repository := "R" }).transform
          ⟨{ identifier := "a" }, some packed⟩ = .ok (some d) ∧ d.publisher = some "P" := by
  have hname : packed.name ≠ "resource" := by decide
  have hfirst : IsFirst "resource" packed (publishedBy "P" [.element (publishedBy "Q" [])]) :=
    descendant?_eq_some_iff.mp rfl
  obtain ⟨_, hsame⟩ := searches_agree.2 packed _ hname hfirst
  refine ⟨hname, hfirst, by rfl, ?_⟩
  rw [hsame .dataCite4 (by decide) { repository := "R" } { identifier := "a" }]
  exact ⟨_, rfl, by rfl⟩

end Harvest.Searches
