import Harvest.Proofs.Answer
import Harvest.Proofs.Citation

/-!
What makes a document a tombstone. It is told by its version, and a record may give any version
itself. So besides the documents of deleted records there are those of records whose metadata have
the word for a version, which only the DataCite kernels take over.
-/
namespace Harvest.Tombstone

open Xml Crosswalk Iso19139 Answer

/-- The version that a schema takes over from the metadata. -/
def versionOf (schema : Schema) (metadata : Element) : Option String :=
  match schema with
  | .dataCite2 | .dataCite3 | .dataCite4 => (DataCite.resourceOf metadata).childText? "version"
  | .dublinCore | .iso19139 => none

theorem parties_version (parties : List Party) (d : Document) :
    (parties.foldl addParty d).version = d.version := by
  obtain ⟨_, _, _, hparties⟩ := Citation.parties_eq parties d
  rw [hparties]

theorem mapIdentification_version (identification : Element) (d : Document) :
    (mapIdentification identification d).version = d.version := by
  unfold mapIdentification
  cases identification.descendant? "CI_Citation" with
  | none => rfl
  | some citation => exact parties_version (partiesOf citation) _

theorem addFileIdentifier_version (metadata : Element) (d : Document) :
    (addFileIdentifier metadata d).version = d.version := by
  obtain ⟨_, _, hfile⟩ := Citation.addFileIdentifier_eq metadata d
  rw [hfile]

theorem iso19139_version (viewUrl : Option String) (metadata : Element) (d : Document) :
    (Iso19139.map viewUrl metadata d).version = d.version := by
  simp only [Iso19139.map, addLinks, addDataLink, fillYearOfMetadata, fillYear, mapDescription,
    addFileIdentifier_version]
  cases (metadata.child? "identificationInfo").bind fun i => i.children.head? with
  | none => rfl
  | some identification => exact mapIdentification_version identification d

/-- A document that had no version before has the one of the metadata. -/
theorem map_version (schema : Schema) (viewUrl : Option String) (metadata : Element) {d : Document}
    (hnone : d.version = none) :
    (schema.map viewUrl metadata d).version = versionOf schema metadata := by
  cases schema with
  | dataCite2 => rfl
  | dataCite3 => rfl
  | dataCite4 => rfl
  | dublinCore => exact hnone
  | iso19139 => exact (iso19139_version viewUrl metadata d).trans hnone

theorem isTombstone_iff (d : Document) :
    d.isTombstone = true ↔ d.version = some Document.deletedVersion := by
  rw [Document.isTombstone, beq_iff_eq]

theorem versionOf_ne {schema : Schema} {metadata : Element}
    (h : (DataCite.resourceOf metadata).childText? "version" ≠ some Document.deletedVersion) :
    versionOf schema metadata ≠ some Document.deletedVersion := by
  cases schema with
  | dataCite2 => exact h
  | dataCite3 => exact h
  | dataCite4 => exact h
  | dublinCore => exact nofun
  | iso19139 => exact nofun

/-- The document of a deleted record is a tombstone. That of any other record is one exactly if its
metadata say so by their version, in a schema that has versions. So tombstones are deleted records
and nothing else, as long as no metadata give that version. -/
theorem tombstone_exact (w : Crosswalk) (r : Record) (d : Document)
    (h : w.transform r = .ok (some d)) :
    (r.deleted = true →
      d = .tombstone r.identifier w.context.repository r.datestamp ∧ d.isTombstone = true) ∧
    (r.deleted = false →
      (d.isTombstone = true ↔ ∃ metadata schema, r.metadata = some metadata ∧
        w.schemaFor r = .ok schema ∧ versionOf schema metadata = some Document.deletedVersion)) ∧
    ((∀ metadata, r.metadata = some metadata →
        (DataCite.resourceOf metadata).childText? "version" ≠ some Document.deletedVersion) →
      (d.isTombstone = true ↔ r.deleted = true)) := by
  have hgone (hdeleted : r.deleted = true) :
      d = .tombstone r.identifier w.context.repository r.datestamp ∧ d.isTombstone = true := by
    obtain ⟨_, rfl⟩ := tombstone_of_document w hdeleted h
    exact ⟨rfl, (isTombstone_iff _).mpr rfl⟩
  have hmapped (hpresent : r.deleted = false) : ∃ metadata schema, r.metadata = some metadata ∧
      w.schemaFor r = .ok schema ∧ d.version = versionOf schema metadata := by
    obtain ⟨_, metadata, schema, hmetadata, hschema, rfl⟩ := mapped_of_document w hpresent h
    exact ⟨metadata, schema, hmetadata, hschema, map_version schema _ metadata rfl⟩
  refine ⟨hgone, fun hpresent => ?_, fun hother => ⟨fun htombstone => ?_, fun hdeleted =>
    (hgone hdeleted).2⟩⟩
  · obtain ⟨metadata, schema, hmetadata, hschema, hversion⟩ := hmapped hpresent
    rw [isTombstone_iff, hversion]
    refine ⟨fun hword => ⟨metadata, schema, hmetadata, hschema, hword⟩, ?_⟩
    rintro ⟨metadata', schema', hmetadata', hschema', hword⟩
    rw [hmetadata, Option.some.injEq] at hmetadata'
    rw [hschema, Except.ok.injEq] at hschema'
    rw [hmetadata', hschema']
    exact hword
  · cases hdeleted : r.deleted with
    | true => rfl
    | false =>
      obtain ⟨metadata, schema, hmetadata, _, hversion⟩ := hmapped hdeleted
      rw [isTombstone_iff, hversion] at htombstone
      exact absurd htombstone (versionOf_ne (hother metadata hmetadata))

/-! Two records that are there, one of which gives the word as its version -/

def versioned (version : String) : Record where
  header := { identifier := "a" }
  metadata := some (.mk "resource" none [] [.element (.mk "version" none [] [.text version])])

def kernel4 : Crosswalk := { mapping := .bound .dataCite4, context := { repository := "R" } }

theorem versioned_exact :
    let d : Document := { identifier := "a", repositoryIdentifier := "R", version := some "1.0" }
    kernel4.transform (versioned "1.0") = .ok (some d) ∧
      (d.isTombstone = true ↔ (versioned "1.0").deleted = true) := by
  intro d
  have hdocument : kernel4.transform (versioned "1.0") = .ok (some d) := by rfl
  refine ⟨hdocument, (tombstone_exact kernel4 (versioned "1.0") d hdocument).2.2 ?_⟩
  intro metadata hmetadata
  rw [← Option.some.inj hmetadata]
  decide +kernel

/-- Not every tombstone is a deleted record. -/
theorem tombstone_not_deleted :
    ¬ ∀ (w : Crosswalk) (r : Record) (d : Document), w.transform r = .ok (some d) →
      (d.isTombstone = true ↔ r.deleted = true) := by
  intro hall
  have hdocument : kernel4.transform (versioned "deleted") =
      .ok (some { identifier := "a", repositoryIdentifier := "R", version := some "deleted" }) := by
    rfl
  have hdeleted : (versioned "deleted").deleted = true :=
    (hall kernel4 (versioned "deleted") _ hdocument).mp (by decide)
  cases hdeleted

end Harvest.Tombstone
