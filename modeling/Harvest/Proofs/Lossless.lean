import Harvest.Document.Decoding
import Mathlib.Data.List.Nodup

/-!
Documents are not lost in what is written of them. Every value is a form with named slots, of which
those that hold nothing are left out. Since no two slots of a form have the same name, each can be
looked up again, so a document is read back from its value. Coordinates are also compared as
numbers, for which the two zeros are the same.
-/
namespace Harvest.Lossless

open Value

variable {α : Type}

/-- What is written is read back. -/
def Reads (read : Value → Option α) (write : α → Value) : Prop := ∀ a, read (write a) = some a

theorem reads_text : Reads text? text := fun _ => rfl

theorem reads_integer : Reads integer? integer := fun _ => rfl

theorem reads_items {read : Value → Option α} {write : α → Value} (h : Reads read write) :
    Reads (items? read) fun l => list (l.map write) := by
  intro l
  rw [items?]
  induction l with
  | nil => rfl
  | cons a l ih => simp [h a, ih]

/-! Forms -/

/-- The slots of a form that hold something. -/
def filled : List (String × Option Value) → List (String × Value)
  | [] => []
  | (name, some v) :: slots => (name, v) :: filled slots
  | (_, none) :: slots => filled slots

/-- The slot of a list, which holds nothing if the list is empty. -/
def listed (write : α → Value) : List α → Option Value
  | [] => none
  | a :: more => some (list ((a :: more).map write))

theorem entry_eq (name : String) (v : Value) (entries : List (String × Value)) :
    (name, v) :: entries = filled [(name, some v)] ++ entries := rfl

theorem optional_eq (name : String) (write : α → Value) (o : Option α) :
    Value.optional name write o = filled [(name, o.map write)] := by
  cases o with
  | none => rfl
  | some a => rfl

theorem several_eq (name : String) (write : α → Value) (l : List α) :
    Value.several name write l = filled [(name, listed write l)] := by
  cases l with
  | nil => rfl
  | cons a more => rfl

theorem filled_append (slots more : List (String × Option Value)) :
    filled slots ++ filled more = filled (slots ++ more) := by
  induction slots with
  | nil => rfl
  | cons slot slots ih =>
    obtain ⟨name, o⟩ := slot
    cases o with
    | none => exact ih
    | some v => rw [filled, List.cons_append, ih, List.cons_append, filled]

theorem lookup_filled_of_not_mem {slots : List (String × Option Value)} {name : String}
    (h : name ∉ slots.map Prod.fst) : (filled slots).lookup name = none := by
  induction slots with
  | nil => rfl
  | cons slot slots ih =>
    obtain ⟨other, o⟩ := slot
    rw [List.map_cons, List.mem_cons, not_or] at h
    cases o with
    | none => exact ih h.2
    | some v => rw [filled, List.lookup_cons, beq_eq_false_iff_ne.mpr h.1, ih h.2]

/-- What stands in a slot is found under its name. -/
theorem lookup_filled {slots : List (String × Option Value)}
    (hnames : (slots.map Prod.fst).Nodup) {name : String} {o : Option Value}
    (h : (name, o) ∈ slots) : (filled slots).lookup name = o := by
  induction slots with
  | nil => cases h
  | cons slot slots ih =>
    obtain ⟨other, o'⟩ := slot
    rw [List.map_cons, List.nodup_cons] at hnames
    cases h with
    | head =>
      -- If the slot holds nothing, no later slot may be taken for it.
      cases o with
      | none => rw [filled, lookup_filled_of_not_mem hnames.1]
      | some v => rw [filled, List.lookup_cons, beq_self_eq_true]
    | tail _ h =>
      have hne : name ≠ other := fun heq => hnames.1 (List.mem_map.mpr ⟨(name, o), h, heq⟩)
      cases o' with
      | none => exact ih hnames.2 h
      | some v =>
        rw [filled, List.lookup_cons, beq_eq_false_iff_ne.mpr hne]
        exact ih hnames.2 h

section

variable {read : Value → Option α} {write : α → Value} {slots : List (String × Option Value)}
  {name : String} {β : Type} {next : Option β}

theorem one_filled {a : α} {f : α → Option β} (hread : Reads read write)
    (hnames : (slots.map Prod.fst).Nodup) (k : Nat)
    (h : slots[k]? = some (name, some (write a))) (hnext : f a = next) :
    (one name read (filled slots) >>= f) = next := by
  rw [one, lookup_filled hnames (List.mem_of_getElem? h), Option.bind_some, hread a]
  exact hnext

theorem atMostOne_filled {o : Option α} {f : Option α → Option β} (hread : Reads read write)
    (hnames : (slots.map Prod.fst).Nodup) (k : Nat)
    (h : slots[k]? = some (name, o.map write)) (hnext : f o = next) :
    (atMostOne name read (filled slots) >>= f) = next := by
  rw [atMostOne, lookup_filled hnames (List.mem_of_getElem? h)]
  cases o with
  | none => exact hnext
  | some a =>
    rw [Option.map_some, Option.mapM_some, hread a]
    exact hnext

theorem many_filled {l : List α} {f : List α → Option β} (hread : Reads read write)
    (hnames : (slots.map Prod.fst).Nodup) (k : Nat)
    (h : slots[k]? = some (name, listed write l)) (hnext : f l = next) :
    (many name read (filled slots) >>= f) = next := by
  rw [many, lookup_filled hnames (List.mem_of_getElem? h)]
  cases l with
  | nil => exact hnext
  | cons a more =>
    have hitems := reads_items hread (a :: more)
    simp only [listed, hitems]
    exact hnext

end

/-! Parts of a document -/

theorem reads_named {kinds : List α} {nameOf : α → String}
    (h : ∀ kind, kinds.find? (fun other => nameOf other == nameOf kind) = some kind) :
    Reads (named? kinds nameOf) fun kind => text (nameOf kind) := h

theorem reads_dateType : Reads DateType.ofValue? fun t : DateType => text t.name :=
  reads_named fun t => by cases t <;> rfl

theorem reads_resourceKind :
    Reads (named? ResourceKind.all ResourceKind.name) fun k : ResourceKind => text k.name :=
  reads_named fun k => by cases k <;> rfl

theorem reads_identifier : Reads Identifier.ofValue? Identifier.toValue := by
  intro i
  simp only [Identifier.ofValue?, Identifier.toValue, record, entry_eq, optional_eq,
    filled_append, List.cons_append, List.nil_append]
  have hnames : ["value", "identifier_type"].Nodup := by decide
  refine one_filled reads_text hnames 0 rfl ?_
  refine atMostOne_filled reads_text hnames 1 rfl ?_
  rfl

theorem reads_title : Reads Title.ofValue? Title.toValue := by
  intro t
  simp only [Title.ofValue?, Title.toValue, record, entry_eq, optional_eq,
    filled_append, List.cons_append, List.nil_append]
  have hnames : ["value", "title_type", "lang"].Nodup := by decide
  refine one_filled reads_text hnames 0 rfl ?_
  refine atMostOne_filled reads_text hnames 1 rfl ?_
  refine atMostOne_filled reads_text hnames 2 rfl ?_
  rfl

theorem reads_nameIdentifier : Reads NameIdentifier.ofValue? NameIdentifier.toValue := by
  intro n
  simp only [NameIdentifier.ofValue?, NameIdentifier.toValue, record, entry_eq, optional_eq,
    filled_append, List.cons_append, List.nil_append]
  have hnames : ["value", "scheme", "scheme_uri"].Nodup := by decide
  refine one_filled reads_text hnames 0 rfl ?_
  refine atMostOne_filled reads_text hnames 1 rfl ?_
  refine atMostOne_filled reads_text hnames 2 rfl ?_
  rfl

theorem reads_person : Reads Person.ofValue? Person.toValue := by
  intro p
  simp only [Person.ofValue?, Person.ofEntries?, Person.toValue, Person.entries, record,
    entry_eq, optional_eq, several_eq, filled_append, List.cons_append, List.nil_append]
  have hnames : ["name", "name_type", "given_name", "family_name", "name_identifiers",
      "affiliations"].Nodup := by decide
  refine one_filled reads_text hnames 0 rfl ?_
  refine atMostOne_filled reads_text hnames 1 rfl ?_
  refine atMostOne_filled reads_text hnames 2 rfl ?_
  refine atMostOne_filled reads_text hnames 3 rfl ?_
  refine many_filled reads_nameIdentifier hnames 4 rfl ?_
  refine many_filled reads_text hnames 5 rfl ?_
  rfl

/-- The fields of the person have other names than that of the contributor. -/
theorem reads_contributor : Reads Contributor.ofValue? Contributor.toValue := by
  intro c
  simp only [Contributor.ofValue?, Person.ofEntries?, Contributor.toValue, Person.entries, record,
    bind_assoc, entry_eq, optional_eq, several_eq, filled_append, List.cons_append, List.nil_append]
  have hnames : ["contributor_type", "name", "name_type", "given_name", "family_name",
      "name_identifiers", "affiliations"].Nodup := by decide
  refine one_filled reads_text hnames 0 rfl ?_
  refine one_filled reads_text hnames 1 rfl ?_
  refine atMostOne_filled reads_text hnames 2 rfl ?_
  refine atMostOne_filled reads_text hnames 3 rfl ?_
  refine atMostOne_filled reads_text hnames 4 rfl ?_
  refine many_filled reads_nameIdentifier hnames 5 rfl ?_
  refine many_filled reads_text hnames 6 rfl ?_
  rfl

theorem reads_dateValue : Reads DateValue.ofValue? DateValue.toValue := by
  intro v
  cases v with
  | point value => rfl
  | range start stop =>
    simp only [DateValue.ofValue?, DateValue.toValue, record,
      entry_eq, optional_eq, filled_append, List.cons_append, List.nil_append]
    have hnames : ["kind", "start", "end"].Nodup := by decide
    refine one_filled reads_text hnames 0 rfl ?_
    refine atMostOne_filled reads_text hnames 1 rfl ?_
    refine atMostOne_filled reads_text hnames 2 rfl ?_
    rfl

theorem reads_date : Reads DocumentDate.ofValue? DocumentDate.toValue := by
  intro d
  simp only [DocumentDate.ofValue?, DocumentDate.toValue, record, entry_eq, optional_eq,
    filled_append, List.cons_append, List.nil_append]
  have hnames : ["date", "date_type", "information"].Nodup := by decide
  refine one_filled reads_dateValue hnames 0 rfl ?_
  refine one_filled reads_dateType hnames 1 rfl ?_
  refine atMostOne_filled reads_text hnames 2 rfl ?_
  rfl

theorem reads_description : Reads Description.ofValue? Description.toValue := by
  intro d
  simp only [Description.ofValue?, Description.toValue, record, entry_eq, optional_eq,
    filled_append, List.cons_append, List.nil_append]
  have hnames : ["value", "description_type", "lang"].Nodup := by decide
  refine one_filled reads_text hnames 0 rfl ?_
  refine atMostOne_filled reads_text hnames 1 rfl ?_
  refine atMostOne_filled reads_text hnames 2 rfl ?_
  rfl

theorem reads_subject : Reads Subject.ofValue? Subject.toValue := by
  intro s
  simp only [Subject.ofValue?, Subject.toValue, record, entry_eq, optional_eq,
    filled_append, List.cons_append, List.nil_append]
  have hnames : ["value", "scheme", "scheme_uri", "value_uri", "lang"].Nodup := by decide
  refine one_filled reads_text hnames 0 rfl ?_
  refine atMostOne_filled reads_text hnames 1 rfl ?_
  refine atMostOne_filled reads_text hnames 2 rfl ?_
  refine atMostOne_filled reads_text hnames 3 rfl ?_
  refine atMostOne_filled reads_text hnames 4 rfl ?_
  rfl

theorem reads_rights : Reads Rights.ofValue? Rights.toValue := by
  intro r
  simp only [Rights.ofValue?, Rights.toValue, record,
    optional_eq, filled_append, List.cons_append, List.nil_append]
  have hnames : ["value", "uri", "lang"].Nodup := by decide
  refine atMostOne_filled reads_text hnames 0 rfl ?_
  refine atMostOne_filled reads_text hnames 1 rfl ?_
  refine atMostOne_filled reads_text hnames 2 rfl ?_
  rfl

theorem reads_related : Reads RelatedIdentifier.ofValue? RelatedIdentifier.toValue := by
  intro r
  simp only [RelatedIdentifier.ofValue?, RelatedIdentifier.toValue, record, entry_eq, optional_eq,
    filled_append, List.cons_append, List.nil_append]
  have hnames : ["value", "identifier_type", "relation_type",
      "resource_type_general"].Nodup := by decide
  refine one_filled reads_text hnames 0 rfl ?_
  refine one_filled reads_text hnames 1 rfl ?_
  refine atMostOne_filled reads_text hnames 2 rfl ?_
  refine atMostOne_filled reads_text hnames 3 rfl ?_
  rfl

theorem reads_point : Reads Point.ofValue? Point.toValue := fun _ => rfl

theorem reads_box : Reads BoundingBox.ofValue? BoundingBox.toValue := fun _ => rfl

theorem reads_geoLocation : Reads GeoLocation.ofValue? GeoLocation.toValue := by
  intro g
  simp only [GeoLocation.ofValue?, GeoLocation.toValue, record, optional_eq, several_eq,
    filled_append, List.cons_append, List.nil_append]
  have hnames : ["place", "point", "bounding_box", "polygons"].Nodup := by decide
  refine atMostOne_filled reads_text hnames 0 rfl ?_
  refine atMostOne_filled reads_point hnames 1 rfl ?_
  refine atMostOne_filled reads_box hnames 2 rfl ?_
  refine many_filled (reads_items reads_point) hnames 3 rfl ?_
  rfl

theorem reads_funding : Reads FundingReference.ofValue? FundingReference.toValue := by
  intro f
  simp only [FundingReference.ofValue?, FundingReference.toValue, record, entry_eq, optional_eq,
    filled_append, List.cons_append, List.nil_append]
  have hnames : ["funder_name", "funder_identifier", "award_number", "award_uri",
      "award_title"].Nodup := by decide
  refine one_filled reads_text hnames 0 rfl ?_
  refine atMostOne_filled reads_identifier hnames 1 rfl ?_
  refine atMostOne_filled reads_text hnames 2 rfl ?_
  refine atMostOne_filled reads_text hnames 3 rfl ?_
  refine atMostOne_filled reads_text hnames 4 rfl ?_
  rfl

theorem reads_link : Reads WebLink.ofValue? WebLink.toValue := by
  intro w
  obtain ⟨name, url, linkType⟩ := w
  cases linkType <;> rfl

theorem reads_resourceType : Reads ResourceType.ofValue? ResourceType.toValue := by
  intro r
  simp only [ResourceType.ofValue?, ResourceType.toValue, record, entry_eq, optional_eq,
    filled_append, List.cons_append, List.nil_append]
  have hnames : ["general", "value"].Nodup := by decide
  refine one_filled reads_resourceKind hnames 0 rfl ?_
  refine atMostOne_filled reads_text hnames 1 rfl ?_
  rfl

/-! Whole documents -/

/-- The slots of a document. -/
def slots (d : Document) : List (String × Option Value) :=
  [("identifier", some (text d.identifier)),
    ("repository_identifier", some (text d.repositoryIdentifier)),
    ("resource_identifier", d.resourceIdentifier.map Identifier.toValue),
    ("titles", listed Title.toValue d.titles),
    ("creators", listed Person.toValue d.creators),
    ("contributors", listed Contributor.toValue d.contributors),
    ("dates", listed DocumentDate.toValue d.dates),
    ("descriptions", listed Description.toValue d.descriptions),
    ("subjects", listed Subject.toValue d.subjects),
    ("rights", listed Rights.toValue d.rights),
    ("related_identifiers", listed RelatedIdentifier.toValue d.relatedIdentifiers),
    ("alternate_identifiers", listed Identifier.toValue d.alternateIdentifiers),
    ("geo_locations", listed GeoLocation.toValue d.geoLocations),
    ("funding_references", listed FundingReference.toValue d.fundingReferences),
    ("web_links", listed WebLink.toValue d.webLinks),
    ("publisher", d.publisher.map text),
    ("language", d.language.map text),
    ("version", d.version.map text),
    ("resource_type", d.resourceType.map ResourceType.toValue),
    ("publication_year", d.publicationYear.map integer),
    ("formats", listed text d.formats),
    ("sizes", listed text d.sizes)]

theorem toValue_eq (d : Document) : d.toValue = fields (filled (slots d)) := by
  simp only [Document.toValue, slots, entry_eq, optional_eq, several_eq, filled_append,
    List.cons_append, List.nil_append]

theorem slots_distinct (d : Document) : ((slots d).map Prod.fst).Nodup := of_decide_eq_true rfl

theorem reads_document : Reads Document.ofValue? Document.toValue := by
  intro d
  have hnames := slots_distinct d
  rw [toValue_eq, Document.ofValue?, record]
  refine one_filled reads_text hnames 0 rfl ?_
  refine one_filled reads_text hnames 1 rfl ?_
  refine atMostOne_filled reads_identifier hnames 2 rfl ?_
  refine many_filled reads_title hnames 3 rfl ?_
  refine many_filled reads_person hnames 4 rfl ?_
  refine many_filled reads_contributor hnames 5 rfl ?_
  refine many_filled reads_date hnames 6 rfl ?_
  refine many_filled reads_description hnames 7 rfl ?_
  refine many_filled reads_subject hnames 8 rfl ?_
  refine many_filled reads_rights hnames 9 rfl ?_
  refine many_filled reads_related hnames 10 rfl ?_
  refine many_filled reads_identifier hnames 11 rfl ?_
  refine many_filled reads_geoLocation hnames 12 rfl ?_
  refine many_filled reads_funding hnames 13 rfl ?_
  refine many_filled reads_link hnames 14 rfl ?_
  refine atMostOne_filled reads_text hnames 15 rfl ?_
  refine atMostOne_filled reads_text hnames 16 rfl ?_
  refine atMostOne_filled reads_text hnames 17 rfl ?_
  refine atMostOne_filled reads_resourceType hnames 18 rfl ?_
  refine atMostOne_filled reads_integer hnames 19 rfl ?_
  refine many_filled reads_text hnames 20 rfl ?_
  refine many_filled reads_text hnames 21 rfl ?_
  rfl

/-! Numbers -/

/-- A number with the sign of zero dropped. -/
def plainNumber (x : Number.Binary64) : Number.Binary64 :=
  { x with negative := x.negative && x.mantissa != 0 }

theorem plainNumber_eq_iff (a b : Number.Binary64) :
    plainNumber a = plainNumber b ↔ a.sameValue b = true := by
  simp only [plainNumber, Number.Binary64.mk.injEq, Number.Binary64.sameValue, Bool.and_eq_true,
    Bool.or_eq_true, beq_iff_eq]
  constructor
  · rintro ⟨hsign, hmantissa, hexponent⟩
    refine ⟨⟨hmantissa, hexponent⟩, ?_⟩
    by_cases hzero : a.mantissa = 0
    · exact .inr hzero
    · rw [← hmantissa, bne_iff_ne.mpr hzero, Bool.and_true, Bool.and_true] at hsign
      exact .inl hsign
  · rintro ⟨⟨hmantissa, hexponent⟩, hsign | hzero⟩
    · exact ⟨by rw [hsign, hmantissa], hmantissa, hexponent⟩
    · exact ⟨by simp [hzero, ← hmantissa], hmantissa, hexponent⟩

mutual

/-- A value in which no zero has a sign. Two values are the same if numbers are compared as such
exactly if these are equal. -/
def plain : Value → Value
  | .text s => .text s
  | .integer n => .integer n
  | .real x => .real (plainNumber x)
  | .list items => .list (plainItems items)
  | .fields entries => .fields (plainEntries entries)

def plainItems : List Value → List Value
  | [] => []
  | v :: more => plain v :: plainItems more

def plainEntries : List (String × Value) → List (String × Value)
  | [] => []
  | (name, v) :: more => (name, plain v) :: plainEntries more

end

@[simp] theorem plain_text (s : String) : plain (text s) = text s := rfl

@[simp] theorem plain_integer (n : Int) : plain (integer n) = integer n := rfl

@[simp] theorem plain_fields (entries : List (String × Value)) :
    plain (fields entries) = fields (plainEntries entries) := rfl

@[simp] theorem plainEntries_nil : plainEntries [] = [] := rfl

@[simp] theorem plainEntries_cons (name : String) (v : Value) (more : List (String × Value)) :
    plainEntries ((name, v) :: more) = (name, plain v) :: plainEntries more := rfl

theorem plainItems_eq (items : List Value) : plainItems items = items.map plain := by
  induction items with
  | nil => rfl
  | cons v more ih => exact congrArg (plain v :: ·) ih

@[simp] theorem plain_list (items : List Value) : plain (list items) = list (items.map plain) :=
  congrArg list (plainItems_eq items)

@[simp] theorem plainEntries_append (entries more : List (String × Value)) :
    plainEntries (entries ++ more) = plainEntries entries ++ plainEntries more := by
  induction entries with
  | nil => rfl
  | cons entry entries ih =>
    obtain ⟨name, v⟩ := entry
    rw [List.cons_append, plainEntries_cons, ih, plainEntries_cons, List.cons_append]

@[simp] theorem plainEntries_optional (name : String) (write : α → Value) (o : Option α) :
    plainEntries (Value.optional name write o) =
      Value.optional name (fun a => plain (write a)) o := by
  cases o with
  | none => rfl
  | some a => rfl

@[simp] theorem plainEntries_several (name : String) (write : α → Value) (l : List α) :
    plainEntries (Value.several name write l) =
      Value.several name (fun a => plain (write a)) l := by
  cases l with
  | nil => rfl
  | cons a more => simp [Value.several]

/-! Values without floating-point numbers -/

@[simp] theorem plain_identifier (i : Identifier) : plain i.toValue = i.toValue := by
  simp [Identifier.toValue]

@[simp] theorem plain_title (t : Title) : plain t.toValue = t.toValue := by
  simp [Title.toValue]

@[simp] theorem plain_nameIdentifier (n : NameIdentifier) : plain n.toValue = n.toValue := by
  simp [NameIdentifier.toValue]

@[simp] theorem plain_entries (p : Person) : plainEntries p.entries = p.entries := by
  simp [Person.entries]

@[simp] theorem plain_person (p : Person) : plain p.toValue = p.toValue := by
  simp [Person.toValue]

@[simp] theorem plain_contributor (c : Contributor) : plain c.toValue = c.toValue := by
  simp [Contributor.toValue]

@[simp] theorem plain_dateValue (v : DateValue) : plain v.toValue = v.toValue := by
  cases v <;> simp [DateValue.toValue]

@[simp] theorem plain_date (d : DocumentDate) : plain d.toValue = d.toValue := by
  simp [DocumentDate.toValue]

@[simp] theorem plain_description (d : Description) : plain d.toValue = d.toValue := by
  simp [Description.toValue]

@[simp] theorem plain_subject (s : Subject) : plain s.toValue = s.toValue := by
  simp [Subject.toValue]

@[simp] theorem plain_rights (r : Rights) : plain r.toValue = r.toValue := by
  simp [Rights.toValue]

@[simp] theorem plain_related (r : RelatedIdentifier) : plain r.toValue = r.toValue := by
  simp [RelatedIdentifier.toValue]

@[simp] theorem plain_funding (f : FundingReference) : plain f.toValue = f.toValue := by
  simp [FundingReference.toValue]

@[simp] theorem plain_link (w : WebLink) : plain w.toValue = w.toValue := by
  simp [WebLink.toValue]

@[simp] theorem plain_resourceType (r : ResourceType) : plain r.toValue = r.toValue := by
  simp [ResourceType.toValue]

/-! Coordinates -/

def plainPoint (p : Point) : Point := ⟨plainNumber p.longitude, plainNumber p.latitude⟩

def plainBox (b : BoundingBox) : BoundingBox :=
  ⟨plainNumber b.west, plainNumber b.east, plainNumber b.south, plainNumber b.north⟩

def plainLocation (g : GeoLocation) : GeoLocation :=
  { g with
    point := g.point.map plainPoint,
    boundingBox := g.boundingBox.map plainBox,
    polygons := g.polygons.map fun polygon => polygon.map plainPoint }

/-- The document with no sign at any zero. -/
def plainDocument (d : Document) : Document :=
  { d with geoLocations := d.geoLocations.map plainLocation }

theorem optional_map {β : Type} (name : String) (write : β → Value) (f : α → β) (o : Option α) :
    Value.optional name write (o.map f) = Value.optional name (fun a => write (f a)) o := by
  cases o with
  | none => rfl
  | some a => rfl

theorem several_map {β : Type} (name : String) (write : β → Value) (f : α → β) (l : List α) :
    Value.several name write (l.map f) = Value.several name (fun a => write (f a)) l := by
  cases l with
  | nil => rfl
  | cons a more => simp [Value.several]

theorem plain_point (p : Point) : plain p.toValue = (plainPoint p).toValue := rfl

theorem plain_box (b : BoundingBox) : plain b.toValue = (plainBox b).toValue := rfl

theorem plain_location (g : GeoLocation) : plain g.toValue = (plainLocation g).toValue := by
  have hpoints : plain ∘ Point.toValue = Point.toValue ∘ plainPoint := funext plain_point
  simp [GeoLocation.toValue, plainLocation, optional_map, several_map, plain_point,
    plain_box, hpoints]

theorem plain_document (d : Document) : plain d.toValue = (plainDocument d).toValue := by
  simp [Document.toValue, plainDocument, several_map, plain_location]

/-! All documents -/

theorem toValue_eq_iff (d d' : Document) : d.toValue = d'.toValue ↔ d = d' := by
  constructor
  · intro h
    have hread := congrArg Document.ofValue? h
    rw [reads_document d, reads_document d'] at hread
    exact Option.some.inj hread
  · exact congrArg Document.toValue

theorem plain_eq_iff (d d' : Document) :
    plain d.toValue = plain d'.toValue ↔ plainDocument d = plainDocument d' := by
  rw [plain_document, plain_document, toValue_eq_iff]

/-- Every document is read back from its value, and so is every file of documents. So two documents
with the same value are the same. If numbers are compared as such, so that the two zeros are equal,
two documents with the same value are the same but for the signs of zeros. -/
theorem serialization_lossless :
    (∀ d : Document, Document.ofValue? d.toValue = some d) ∧
    (∀ documents : List Document,
      items? Document.ofValue? (list (documents.map Document.toValue)) = some documents) ∧
    (∀ d d' : Document, d.toValue = d'.toValue ↔ d = d') ∧
    (∀ d d' : Document,
      plain d.toValue = plain d'.toValue ↔ plainDocument d = plainDocument d') ∧
    ∀ a b : Number.Binary64, plainNumber a = plainNumber b ↔ a.sameValue b = true :=
  ⟨reads_document, reads_items reads_document, toValue_eq_iff, plain_eq_iff, plainNumber_eq_iff⟩

end Harvest.Lossless
