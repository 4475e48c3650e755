import Harvest.Proofs.Shape

/-!
The link to the data of a geographic record. The data are at some URL inside transfer options, and a
record can have many of both. The link is made from the first URL of the first transfer options
alone, so it leads to the right place whenever there is one, but data that are only offered further
on are overlooked.
-/
namespace Harvest.Linkage

open Xml Crosswalk Iso19139

/-! Addresses -/

mutual

/-- The URLs in an element that stand inside transfer options, in document order. With `inside` the
element stands there itself. -/
def addresses (inside : Bool) : Element → List Element
  | .mk _ _ _ content => addressesOf inside content

def addressesOf (inside : Bool) : List Node → List Element
  | [] => []
  | .element e :: rest =>
    (if inside && e.name == "URL" then [e] else []) ++
      (addresses (inside || e.name == "transferOptions") e ++ addressesOf inside rest)
  | .text _ :: rest => addressesOf inside rest
  | .remark :: rest => addressesOf inside rest

end

/-- Where the record offers its data: the text of the first address that has one. -/
def offered (metadata : Element) : Option String :=
  (addresses false metadata).findSome? Element.content?

/-- The first URL of the first transfer options has this text. -/
def Foremost (metadata : Element) (url : String) : Prop :=
  ∃ options address, (metadata.descendants "transferOptions").head? = some options ∧
    (options.descendants "URL").head? = some address ∧ address.content? = some url

/-! Searches -/

mutual

/-- The first element of a name is the first of that name in document order. -/
theorem descendant?_eq_find? (tag : String) :
    ∀ e : Element, e.descendant? tag = e.inner.find? (·.name == tag)
  | .mk _ _ _ content => firstNamed?_eq_find? tag content

theorem firstNamed?_eq_find? (tag : String) : ∀ content : List Node,
    firstNamed? tag content = (innerOf content).find? (·.name == tag)
  | [] => rfl
  | .element e :: rest => by
    rw [firstNamed?, innerOf, List.find?_cons, List.find?_append, descendant?_eq_find? tag e,
      firstNamed?_eq_find? tag rest]
    cases e.name == tag with
    | true => rfl
    | false => cases e.inner.find? (·.name == tag) <;> rfl
  | .text _ :: rest => firstNamed?_eq_find? tag rest
  | .remark :: rest => firstNamed?_eq_find? tag rest

end

theorem descendants_head? (tag : String) (e : Element) :
    (e.descendants tag).head? = e.descendant? tag := by
  rw [Element.descendants, List.head?_filter, descendant?_eq_find?]

mutual

/-- What is inside an element that is inside is inside. -/
theorem inner_trans {d u : Element} (hu : u ∈ d.inner) : ∀ e : Element, d ∈ e.inner → u ∈ e.inner
  | .mk _ _ _ content, hd => innerOf_trans hu content hd

theorem innerOf_trans {d u : Element} (hu : u ∈ d.inner) : ∀ content : List Node,
    d ∈ innerOf content → u ∈ innerOf content
  | .element e :: rest, hd => by
    simp only [innerOf, List.mem_cons, List.mem_append] at hd ⊢
    rcases hd with rfl | hd | hd
    · exact .inr (.inl hu)
    · exact .inr (.inl (inner_trans hu e hd))
    · exact .inr (.inr (innerOf_trans hu rest hd))
  | .text _ :: rest, hd => innerOf_trans hu rest hd
  | .remark :: rest, hd => innerOf_trans hu rest hd

end

theorem descendants_trans {tag tag' : String} {d e u : Element} (hd : d ∈ e.descendants tag)
    (hu : u ∈ d.descendants tag') : u ∈ e.descendants tag' := by
  obtain ⟨hinside, htag⟩ := List.mem_filter.mp hu
  exact List.mem_filter.mpr ⟨inner_trans hinside e (List.mem_filter.mp hd).1, htag⟩

/-! Which elements are addresses -/

mutual

/-- Inside transfer options every URL is an address. -/
theorem addresses_inside : ∀ e : Element, addresses true e = e.descendants "URL"
  | .mk _ _ _ content => addressesOf_inside content

theorem addressesOf_inside : ∀ content : List Node,
    addressesOf true content = (innerOf content).filter (·.name == "URL")
  | [] => rfl
  | .element e :: rest => by
    have hinner : addresses true e = e.inner.filter (·.name == "URL") := addresses_inside e
    rw [addressesOf, innerOf, List.filter_cons, List.filter_append, Bool.true_or, Bool.true_and,
      hinner, addressesOf_inside rest]
    split
    · rfl
    · rfl
  | .text _ :: rest => addressesOf_inside rest
  | .remark :: rest => addressesOf_inside rest

end

theorem addressesOf_options {e : Element} (h : (e.name == "transferOptions") = true)
    (rest : List Node) :
    addressesOf false (.element e :: rest) = e.descendants "URL" ++ addressesOf false rest := by
  rw [addressesOf, Bool.false_and, if_neg Bool.false_ne_true, h, Bool.false_or, addresses_inside,
    List.nil_append]

theorem addressesOf_other {e : Element} (h : (e.name == "transferOptions") = false)
    (rest : List Node) :
    addressesOf false (.element e :: rest) = addresses false e ++ addressesOf false rest := by
  rw [addressesOf, Bool.false_and, if_neg Bool.false_ne_true, h, Bool.false_or, List.nil_append]

mutual

theorem mem_addresses {a : Element} : ∀ e : Element, a ∈ addresses false e ↔
    ∃ options ∈ e.descendants "transferOptions", a ∈ options.descendants "URL"
  | .mk _ _ _ content => mem_addressesOf content

theorem mem_addressesOf {a : Element} : ∀ content : List Node, a ∈ addressesOf false content ↔
    ∃ options ∈ (innerOf content).filter (·.name == "transferOptions"),
      a ∈ options.descendants "URL"
  | [] => by simp [addressesOf, innerOf]
  | .element e :: rest => by
    have hrest := mem_addressesOf (a := a) rest
    rw [innerOf, List.filter_cons, List.filter_append]
    cases hname : e.name == "transferOptions" with
    | true =>
      -- Options inside these options add no address.
      have hinner : (∃ options ∈ e.inner.filter (·.name == "transferOptions"),
          a ∈ options.descendants "URL") → a ∈ e.descendants "URL" :=
        fun ⟨_, hoptions, ha⟩ => descendants_trans hoptions ha
      rw [addressesOf_options hname, List.mem_append, hrest]
      simp only [if_true, List.mem_cons, List.mem_append, or_and_right, exists_or,
        exists_eq_left]
      rw [← or_assoc, or_iff_left_of_imp hinner]
    | false =>
      have hinner : a ∈ addresses false e ↔
          ∃ options ∈ e.inner.filter (·.name == "transferOptions"),
            a ∈ options.descendants "URL" := mem_addresses e
      rw [addressesOf_other hname, List.mem_append, hrest, hinner]
      simp only [Bool.false_eq_true, if_false, List.mem_append, or_and_right, exists_or]
  | .text _ :: rest => mem_addressesOf rest
  | .remark :: rest => mem_addressesOf rest

end

theorem addresses_eq_nil {e : Element} (h : e.descendant? "transferOptions" = none) :
    addresses false e = [] := by
  rw [← descendants_head?, List.head?_eq_none_iff] at h
  rw [List.eq_nil_iff_forall_not_mem]
  intro a ha
  obtain ⟨options, hoptions, _⟩ := (mem_addresses e).mp ha
  rw [h] at hoptions
  exact List.not_mem_nil hoptions

mutual

/-- The addresses begin with the URLs of the first transfer options. -/
theorem addresses_of_first {options : Element} : ∀ e : Element,
    e.descendant? "transferOptions" = some options →
      options.descendants "URL" <+: addresses false e
  | .mk _ _ _ content, h => addressesOf_of_first content h

theorem addressesOf_of_first {options : Element} : ∀ content : List Node,
    firstNamed? "transferOptions" content = some options →
      options.descendants "URL" <+: addressesOf false content
  | .element e :: rest, h => by
    rw [firstNamed?] at h
    cases hname : e.name == "transferOptions" with
    | true =>
      rw [hname, if_pos rfl, Option.some.injEq] at h
      rw [addressesOf_options hname, h]
      exact List.prefix_append _ _
    | false =>
      rw [hname, if_neg Bool.false_ne_true] at h
      rw [addressesOf_other hname]
      cases hinner : e.descendant? "transferOptions" with
      | some found =>
        rw [hinner, Option.some.injEq] at h
        exact (addresses_of_first e (h ▸ hinner)).trans (List.prefix_append _ _)
      | none =>
        rw [hinner] at h
        rw [addresses_eq_nil hinner]
        exact addressesOf_of_first rest h
  | .text _ :: rest, h => addressesOf_of_first rest h
  | .remark :: rest, h => addressesOf_of_first rest h

end

/-! The link of a record -/

theorem dataLink_eq_some_iff {metadata : Element} {title : Option String} {link : WebLink} :
    dataLink metadata title = some link ↔ ∃ url, Foremost metadata url ∧
      link = { name := title.getD dataName, url, linkType := .researchData } := by
  unfold Foremost
  simp only [descendants_head?, dataLink, Option.bind_eq_bind, Option.bind_eq_some_iff,
    Option.some.injEq]
  constructor
  · rintro ⟨options, hoptions, address, haddress, url, hurl, rfl⟩
    exact ⟨url, ⟨options, address, hoptions, haddress, hurl⟩, rfl⟩
  · rintro ⟨url, ⟨options, address, hoptions, haddress, hurl⟩, rfl⟩
    exact ⟨options, hoptions, address, haddress, url, hurl, rfl⟩

theorem offered_of_foremost {metadata : Element} {url : String} (h : Foremost metadata url) :
    offered metadata = some url := by
  obtain ⟨options, address, hoptions, haddress, hurl⟩ := h
  rw [descendants_head?] at hoptions
  obtain ⟨rest, hall⟩ := addresses_of_first metadata hoptions
  obtain ⟨more, hmore⟩ := List.head?_eq_some_iff.mp haddress
  rw [offered, ← hall, hmore, List.cons_append, List.findSome?_cons, hurl]

theorem offered_isSome_iff (metadata : Element) : (offered metadata).isSome = true ↔
    ∃ options ∈ metadata.descendants "transferOptions", ∃ address ∈ options.descendants "URL",
      address.content?.isSome = true := by
  rw [offered, List.findSome?_isSome_iff]
  constructor
  · rintro ⟨address, haddress, htext⟩
    obtain ⟨options, hoptions, hinside⟩ := (mem_addresses metadata).mp haddress
    exact ⟨options, hoptions, address, hinside, htext⟩
  · rintro ⟨options, hoptions, address, hinside, htext⟩
    exact ⟨address, (mem_addresses metadata).mpr ⟨options, hoptions, hinside⟩, htext⟩

/-- The links of a document to its data. -/
def dataLinks (d : Document) : List WebLink := d.webLinks.filter (·.linkType == .researchData)

/-- A link to the data of a document, named by its title. -/
def linkTo (d : Document) (url : String) : WebLink :=
  { name := d.mainTitle?.getD dataName, url, linkType := .researchData }

theorem map_stages (viewUrl : Option String) (metadata : Element) (d : Document) :
    ∃ filled, Shape.Keeps d filled ∧
      Iso19139.map viewUrl metadata d = addLinks viewUrl (addDataLink metadata filled) := by
  have hfilled (identified : Document) (h : Shape.Keeps d identified) :=
    (h.trans (Shape.addFileIdentifier_keeps metadata identified)).trans
      (Shape.mapDescription_keeps metadata _)
  unfold Iso19139.map
  cases (metadata.child? "identificationInfo").bind fun i => i.children.head? with
  | none => exact ⟨_, hfilled d (.refl d), rfl⟩
  | some identification =>
    exact ⟨_, hfilled _ (Shape.mapIdentification_keeps identification d), rfl⟩

theorem no_dataLinks {links : List WebLink} {other : LinkType}
    (h : ∀ link ∈ links, link.linkType = other) (hother : other ≠ .researchData) :
    links.filter (·.linkType == .researchData) = [] := by
  rw [List.filter_eq_nil_iff]
  intro link hlink
  rw [h link hlink]
  simpa using hother

theorem map_dataLinks (viewUrl : Option String) (metadata : Element) {d : Document}
    (hnone : dataLinks d = []) :
    dataLinks (Iso19139.map viewUrl metadata d) =
      (dataLink metadata (Iso19139.map viewUrl metadata d).mainTitle?).toList := by
  obtain ⟨filled, hkeeps, hmap⟩ := map_stages viewUrl metadata d
  have htitle : (Iso19139.map viewUrl metadata d).mainTitle? = filled.mainTitle? := by
    rw [hmap]
    rfl
  have hall : (dataLink metadata filled.mainTitle?).toList.filter
      (·.linkType == .researchData) = (dataLink metadata filled.mainTitle?).toList := by
    rw [List.filter_eq_self]
    intro link hlink
    rw [Shape.dataLink_type (Option.mem_toList.mp hlink)]
    decide
  have hrelated : (relatedLinks filled.relatedIdentifiers).filter
      (·.linkType == .researchData) = [] :=
    no_dataLinks (fun _ hlink => Shape.relatedLinks_type hlink) nofun
  have hview : (viewLink filled.identifier filled.resourceIdentifier viewUrl).toList.filter
      (·.linkType == .researchData) = [] :=
    no_dataLinks (fun _ hlink => Shape.viewLink_type (Option.mem_toList.mp hlink)) nofun
  rw [htitle, hmap]
  simp only [dataLinks, addLinks, addDataLink, List.filter_append, hrelated, hview,
    List.append_nil, hall, hkeeps.links] at hnone ⊢
  rw [hnone, List.nil_append]

theorem outline_dataLinks (context : Context) (header : Header) :
    dataLinks (outline context header) = [] :=
  no_dataLinks (fun _ hlink => Shape.outline_type hlink) nofun

section

variable {metadata : Element} {d : Document}
  (hlinks : dataLinks d = (dataLink metadata d.mainTitle?).toList)

include hlinks

theorem dataLinks_of_foremost {url : String} (h : Foremost metadata url) :
    dataLinks d = [linkTo d url] := by
  rw [hlinks, dataLink_eq_some_iff.mpr ⟨url, h, rfl⟩]
  rfl

theorem dataLinks_of_none (h : ∀ url, ¬ Foremost metadata url) : dataLinks d = [] := by
  rw [hlinks, Option.toList_eq_nil_iff, Option.eq_none_iff_forall_ne_some]
  intro link hlink
  obtain ⟨url, hurl, _⟩ := dataLink_eq_some_iff.mp hlink
  exact h url hurl

theorem dataLinks_eq_offered_iff :
    dataLinks d = ((offered metadata).map (linkTo d)).toList ↔
      ∀ url, offered metadata = some url → Foremost metadata url := by
  constructor
  · intro hoffered url hurl
    by_contra hnot
    have hnone (url' : String) (h : Foremost metadata url') : False := by
      have hsame := hurl.symm.trans (offered_of_foremost h)
      exact hnot (Option.some.inj hsame ▸ h)
    rw [dataLinks_of_none hlinks hnone, hurl] at hoffered
    cases hoffered
  · intro hforemost
    cases hoffered : offered metadata with
    | some url => exact dataLinks_of_foremost hlinks (hforemost url hoffered)
    | none =>
      refine dataLinks_of_none hlinks fun url h => ?_
      rw [offered_of_foremost h] at hoffered
      cases hoffered

end

/-- The data of a record are offered if some URL inside some transfer options has a text. The record
has at most one link to its data, to the first such URL and named by the title. There is one exactly
if the first URL of the first transfer options has a text, so all other data are overlooked. -/
theorem data_linked_at_first_options (w : Crosswalk) {r : Record} {metadata : Element}
    (hsome : r.identifier.isEmpty = false) (hpresent : r.deleted = false)
    (hmetadata : r.metadata = some metadata) (hschema : w.schemaFor r = .ok .iso19139) :
    ((offered metadata).isSome = true ↔
      ∃ options ∈ metadata.descendants "transferOptions",
        ∃ address ∈ options.descendants "URL", address.content?.isSome = true) ∧
    ∃ d, w.transform r = .ok (some d) ∧
      (∀ url, Foremost metadata url →
        offered metadata = some url ∧ dataLinks d = [linkTo d url]) ∧
      ((∀ url, ¬ Foremost metadata url) → dataLinks d = []) ∧
      (dataLinks d = ((offered metadata).map (linkTo d)).toList ↔
        ∀ url, offered metadata = some url → Foremost metadata url) := by
  refine ⟨offered_isSome_iff metadata, _,
    by rw [Answer.transform_full w hsome hpresent hmetadata, hschema]; rfl, ?_⟩
  have hlinks := map_dataLinks w.context.viewUrl metadata (outline_dataLinks w.context r.header)
  exact ⟨fun url h => ⟨offered_of_foremost h, dataLinks_of_foremost hlinks h⟩,
    dataLinks_of_none hlinks, dataLinks_eq_offered_iff hlinks⟩

/-! Records that offer their data in one or another of their transfer options -/

def online (urls : List String) : Node :=
  .element (.mk "transferOptions" none []
    (urls.map fun url => .element (.mk "URL" none [] [.text url])))

def grid (options : List (List String)) : Element := .mk "MD_Metadata" none [] (options.map online)

def gridRecord (options : List (List String)) : Record :=
  ⟨{ identifier := "a" }, some (grid options)⟩

def geographic : Crosswalk := { mapping := .bound .iso19139, context := { repository := "R" } }

def foremostGrid : Record := gridRecord [[" https://example.org/d\n", "b"], ["c"]]

theorem grid_linked :
    Foremost (grid [[" https://example.org/d\n", "b"], ["c"]]) "https://example.org/d" ∧
    ∃ d, geographic.transform foremostGrid = .ok (some d) ∧
      dataLinks d = [⟨"Research Data", "https://example.org/d", .researchData⟩] := by
  have hforemost :
      Foremost (grid [[" https://example.org/d\n", "b"], ["c"]]) "https://example.org/d" :=
    ⟨_, _, rfl, rfl, by decide +kernel⟩
  have hgrid : foremostGrid.identifier.isEmpty = false := by decide
  obtain ⟨_, d, hd, hlinks, _⟩ := data_linked_at_first_options geographic hgrid rfl rfl rfl
  have hmapped : geographic.transform foremostGrid = .ok (some
      (Iso19139.map none (grid [[" https://example.org/d\n", "b"], ["c"]])
        (outline geographic.context foremostGrid.header))) := by rfl
  have htitle : d.mainTitle? = none := by
    rw [hmapped] at hd
    cases hd
    rfl
  refine ⟨hforemost, d, hd, ?_⟩
  rw [(hlinks _ hforemost).2, linkTo, htitle]
  rfl

/-- Not all data that are offered are linked to: transfer options without a URL hide those behind
them. -/
theorem later_options_overlooked :
    ¬ ∀ (w : Crosswalk) (r : Record) (metadata : Element) (d : Document), r.deleted = false →
      r.metadata = some metadata → w.schemaFor r = .ok .iso19139 → w.transform r = .ok (some d) →
        dataLinks d = ((offered metadata).map (linkTo d)).toList := by
  intro hall
  have hdocument : geographic.transform (gridRecord [[], ["https://example.org/d"]]) =
      .ok (some { identifier := "a", repositoryIdentifier := "R" }) := by rfl
  have hlinks :=
    hall geographic (gridRecord [[], ["https://example.org/d"]]) _ _ rfl rfl rfl hdocument
  have hoffered : offered (grid [[], ["https://example.org/d"]]) =
      some "https://example.org/d" := by decide +kernel
  rw [hoffered] at hlinks
  cases hlinks

end Harvest.Linkage
