import Harvest.Crosswalk

/-!
The answers of a crosswalk, one for each kind of record. Only a full record is mapped, and only
there does it matter where the crosswalk takes the schema from. Both ways lead to the same mappers,
so that only the schema decides how a record is mapped.
-/
namespace Harvest.Crosswalk

/-- The schema to map a record by. -/
def schemaFor (w : Crosswalk) (r : Record) : Except Error Schema :=
  match w.mapping with
  | .bound schema => .ok schema
  | .declared =>
    match r.schema? with
    | some schema => .ok schema
    | none => .error (.unknownSchema r.identifier r.schemaLocation?)

end Harvest.Crosswalk

namespace Harvest.Answer

open Xml Crosswalk

/-- What there is of a record: it may lack an identifier, be deleted, or lack metadata, in this
order. -/
inductive Kind (r : Record) : Prop
  | nameless (hnone : r.identifier.isEmpty = true)
  | gone (hsome : r.identifier.isEmpty = false) (hdeleted : r.deleted = true)
  | bare (hsome : r.identifier.isEmpty = false) (hpresent : r.deleted = false)
      (hnone : r.metadata = none)
  | full (hsome : r.identifier.isEmpty = false) (hpresent : r.deleted = false)
      (metadata : Element) (hmetadata : r.metadata = some metadata)

theorem kind (r : Record) : Kind r := by
  cases hidentifier : r.identifier.isEmpty with
  | true => exact .nameless hidentifier
  | false =>
    cases hdeleted : r.deleted with
    | true => exact .gone hidentifier hdeleted
    | false =>
      cases hmetadata : r.metadata with
      | none => exact .bare hidentifier hdeleted hmetadata
      | some metadata => exact .full hidentifier hdeleted metadata hmetadata

/-- What stands for a deleted record. -/
def substitute (context : Context) (r : Record) : Option Document :=
  match context.deletionPolicy with
  | .dropDeleted => none
  | .emitTombstone => some (.tombstone r.identifier context.repository r.datestamp)

/-! The mappers -/

/-- The mappers kept at hand for mixed schemas are those that a harvest of one schema has. -/
theorem mapper_eq_map (schema : Schema) : Mappers.all.mapper schema = schema.map := by
  cases schema with
  | dataCite2 => rfl
  | dataCite3 => rfl
  | dataCite4 => rfl
  | dublinCore => rfl
  | iso19139 => rfl

/-- Whether a record is mapped by the schema of the harvest or by its own, the schema decides. -/
theorem mapFields_eq (w : Crosswalk) (r : Record) (viewUrl : Option String) (metadata : Element)
    (d : Document) :
    w.mapping.mapFields r viewUrl metadata d =
      (w.schemaFor r).map fun schema => schema.map viewUrl metadata d := by
  unfold Mapping.mapFields schemaFor
  cases w.mapping with
  | bound schema => rfl
  | declared =>
    dsimp only [Mappers.mapFields]
    cases r.schema? with
    | none => rfl
    | some schema =>
      dsimp only
      rw [mapper_eq_map]
      rfl

/-! The answers -/

section

variable (w : Crosswalk) {r : Record}

theorem transform_nameless (hnone : r.identifier.isEmpty = true) :
    w.transform r = .error (.missingElement "identifier" "record header") := by
  simp only [Crosswalk.transform, hnone, if_true]

theorem transform_gone (hsome : r.identifier.isEmpty = false) (hdeleted : r.deleted = true) :
    w.transform r = .ok (substitute w.context r) := by
  simp only [Crosswalk.transform, substitute, hsome, hdeleted, Bool.false_eq_true, if_false,
    if_true]
  cases w.context.deletionPolicy with
  | dropDeleted => rfl
  | emitTombstone => rfl

theorem transform_bare (hsome : r.identifier.isEmpty = false) (hpresent : r.deleted = false)
    (hnone : r.metadata = none) :
    w.transform r = .error (.missingElement "metadata" ("record " ++ r.identifier)) := by
  simp only [Crosswalk.transform, hsome, hpresent, hnone, Bool.false_eq_true, if_false]

theorem transform_full (hsome : r.identifier.isEmpty = false) (hpresent : r.deleted = false)
    {metadata : Element} (hmetadata : r.metadata = some metadata) :
    w.transform r = (w.schemaFor r).map fun schema =>
      some (schema.map w.context.viewUrl metadata (outline w.context r.header)) := by
  simp only [Crosswalk.transform, hsome, hpresent, hmetadata, Bool.false_eq_true, if_false,
    mapFields_eq]
  cases w.schemaFor r with
  | error e => rfl
  | ok schema => rfl

/-- A record that is there and has a document was mapped by some schema. -/
theorem mapped_of_document (hpresent : r.deleted = false) {d : Document}
    (hd : w.transform r = .ok (some d)) :
    r.identifier.isEmpty = false ∧ ∃ metadata schema, r.metadata = some metadata ∧
      w.schemaFor r = .ok schema ∧
      d = schema.map w.context.viewUrl metadata (outline w.context r.header) := by
  cases kind r with
  | nameless hnone =>
    rw [transform_nameless w hnone] at hd
    cases hd
  | gone hsome hdeleted =>
    rw [hpresent] at hdeleted
    cases hdeleted
  | bare hsome _ hnone =>
    rw [transform_bare w hsome hpresent hnone] at hd
    cases hd
  | full hsome _ metadata hmetadata =>
    rw [transform_full w hsome hpresent hmetadata] at hd
    cases hschema : w.schemaFor r with
    | error e =>
      rw [hschema] at hd
      cases hd
    | ok schema =>
      rw [hschema] at hd
      cases hd
      exact ⟨hsome, metadata, schema, hmetadata, rfl, rfl⟩

/-- A deleted record that has a document has the one that stands in for it. -/
theorem tombstone_of_document (hdeleted : r.deleted = true) {d : Document}
    (hd : w.transform r = .ok (some d)) :
    r.identifier.isEmpty = false ∧
      d = .tombstone r.identifier w.context.repository r.datestamp := by
  cases kind r with
  | nameless hnone =>
    rw [transform_nameless w hnone] at hd
    cases hd
  | gone hsome _ =>
    rw [transform_gone w hsome hdeleted, substitute] at hd
    cases hpolicy : w.context.deletionPolicy with
    | dropDeleted =>
      rw [hpolicy] at hd
      cases hd
    | emitTombstone =>
      rw [hpolicy] at hd
      cases hd
      exact ⟨hsome, rfl⟩
  | bare _ hpresent _ =>
    rw [hdeleted] at hpresent
    cases hpresent
  | full _ hpresent _ _ =>
    rw [hdeleted] at hpresent
    cases hpresent

end

end Harvest.Answer
