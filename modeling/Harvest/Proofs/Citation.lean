import Harvest.Crosswalk

/-!
What the stages of geographic metadata can change. A party becomes a creator, a contributor or the
publisher, and the identifier of the metadata file an identifier of the resource. All other fields
of the document stay, however many parties there are.
-/
namespace Harvest.Citation

open Xml Crosswalk Iso19139

theorem addParty_eq (d : Document) (p : Party) : ∃ creators contributors publisher,
    addParty d p = { d with creators, contributors, publisher } := by
  unfold addParty
  split
  · exact ⟨_, _, _, rfl⟩
  · split
    · exact ⟨_, _, _, rfl⟩
    · split
      · exact ⟨_, _, _, rfl⟩
      · exact ⟨_, _, _, rfl⟩

theorem parties_eq (parties : List Party) (d : Document) : ∃ creators contributors publisher,
    parties.foldl addParty d = { d with creators, contributors, publisher } := by
  induction parties generalizing d with
  | nil => exact ⟨_, _, _, rfl⟩
  | cons p parties ih =>
    obtain ⟨creators, contributors, publisher, hfirst⟩ := addParty_eq d p
    rw [List.foldl_cons, hfirst]
    exact ih _

theorem addFileIdentifier_eq (metadata : Element) (d : Document) :
    ∃ resourceIdentifier alternateIdentifiers,
      addFileIdentifier metadata d = { d with resourceIdentifier, alternateIdentifiers } := by
  unfold addFileIdentifier
  split
  · exact ⟨_, _, rfl⟩
  · split
    · exact ⟨_, _, rfl⟩
    · exact ⟨_, _, rfl⟩

end Harvest.Citation
