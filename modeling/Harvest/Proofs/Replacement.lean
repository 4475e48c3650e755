import Harvest.Output.Save
import Harvest.Proofs.Moments

/-!
Files are replaced at once. The text of a save goes to a draft beside the file, so that whoever
looks at the file sees what was there before or all that is new, at every moment and whatever fails.
A save that succeeds leaves nothing else behind; one that fails may leave the draft.
-/
namespace Harvest.Replacement

open Files Output

/-- A location holds what it held, or a directory was made where nothing was. -/
def Kept (t t' : Tree) (l : Location) : Prop :=
  t'.get? l = t.get? l ∨ t.get? l = none ∧ t'.get? l = some .directory

/-- A text was put into the draft, and elsewhere only directories were made. -/
structure Drafted (draft : Path) (text : String) (t t' : Tree) : Prop where
  names : t'.Names draft
  text : t'.get? draft.place = some (.file text)
  free : t.isDirectory draft.place = false
  others : ∀ l, l ≠ draft.place → Kept t t' l

/-- What can be seen of a save at any moment. -/
structure Seen (content : String) (draft p : Path) (t t' : Tree) : Prop where
  target : t'.fileAt? p.place = t.fileAt? p.place ∨ t'.fileAt? p.place = some content
  others : ∀ l, l ≠ p.place → l ≠ draft.place → Kept t t' l
  directories : ∀ l, t.isDirectory l = true → t'.isDirectory l = true

/-- A save is done: the file has its new content, and the draft is gone. -/
structure Saved (content : String) (draft p : Path) (t t' : Tree) : Prop
    extends Seen content draft p t t' where
  text : t'.read p = .ok content
  gone : t'.get? draft.place = none

/-- What a failed save leaves: directories, and the draft if something failed after it was made. -/
inductive Left (refuses : Tree → Action → IoError → Prop) (content : String) (draft p : Path)
    (e : IoError) (t t' : Tree) : Prop
  | directories (h : ∀ l, Kept t t' l)
  | part {text : String} (h : Drafted draft text t t')
      (hcause : refuses t' (.write draft content) e)
  | draft (h : Drafted draft content t t')
      (hcause : refuses t' (.sync draft) e ∨ refuses t' (.rename draft p) e)

/-- The end of a save that gave a result. -/
def Ended (refuses : Tree → Action → IoError → Prop) (content : String) (draft p : Path)
    (t : Tree) : Except IoError Unit → Tree → Prop
  | .ok (), t' => Saved content draft p t t'
  | .error e, t' => Left refuses content draft p e t t'

section

variable {refuses : Tree → Action → IoError → Prop} {content text : String} {draft p : Path}
  {t t' t'' : Tree} {l : Location}

/-! What is kept -/

theorem Kept.fileAt?_eq (h : Kept t t' l) : t'.fileAt? l = t.fileAt? l := by
  rw [Tree.fileAt?, Tree.fileAt?]
  rcases h with h | ⟨hnone, hmade⟩
  · rw [h]
  · rw [hnone, hmade]

theorem Kept.isDirectory (h : Kept t t' l) (hl : t.isDirectory l = true) :
    t'.isDirectory l = true := by
  rw [Tree.isDirectory_iff] at hl ⊢
  rcases h with h | ⟨_, hmade⟩
  · rw [h, hl]
  · exact hmade

theorem Kept.put (h : Kept t t' l) {k : Location} (hk : k ≠ []) (hlk : l ≠ k) (e : Entry) :
    Kept t (t'.put k e) l := by
  rwa [Kept, Tree.get?_put t' hk, if_neg hlk]

theorem Kept.remove (h : Kept t t' l) {k : Location} (hk : k ≠ []) (hlk : l ≠ k) :
    Kept t (t'.remove k) l := by
  rwa [Kept, Tree.get?_remove t' hk, if_neg hlk]

theorem kept_makeDirectory (h : ∀ l, Kept t t' l) {k : Location} (hk : k ≠ [])
    (hfree : t'.get? k = none) (l : Location) : Kept t (t'.put k .directory) l := by
  by_cases hlk : l = k
  · refine .inr ⟨?_, by rw [Tree.get?_put t' hk, if_pos hlk]⟩
    rcases h l with hsame | ⟨hnone, _⟩
    · rw [← hsame, hlk, hfree]
    · exact hnone
  · exact (h l).put hk hlk .directory

/-! Stages of a save -/

theorem drafted_put (hnames : t'.Names draft) (hfile : t'.isDirectory draft.place = false)
    (hfree : t.isDirectory draft.place = false) (hothers : ∀ l, l ≠ draft.place → Kept t t' l)
    (text : String) : Drafted draft text t (t'.put draft.place (.file text)) where
  names := hnames.kept fun _ hl => Tree.isDirectory_put hnames.place_ne_nil hfile hl _
  text := by rw [Tree.get?_put t' hnames.place_ne_nil, if_pos rfl]
  free := hfree
  others := fun l hl => (hothers l hl).put hnames.place_ne_nil hl _

theorem drafted_create (h : ∀ l, Kept t t' l) (hcreate : t'.create draft = .ok t'') :
    Drafted draft "" t t'' := by
  obtain ⟨hnames, hfree, rfl⟩ := Tree.create_eq_ok.mp hcreate
  refine drafted_put hnames hfree ?_ (fun l _ => h l) ""
  by_contra hbefore
  rw [(h draft.place).isDirectory (by simpa using hbefore)] at hfree
  cases hfree

theorem Drafted.write {s : String} (h : Drafted draft text t t')
    (hwrite : t'.write draft s = .ok t'') : Drafted draft s t t'' := by
  obtain ⟨hnames, ⟨old, hold⟩, rfl⟩ := Tree.write_eq_ok.mp hwrite
  exact drafted_put hnames (Tree.isDirectory_of_file hold) h.free h.others s

theorem Drafted.directories (h : Drafted draft text t t') :
    ∀ l, t.isDirectory l = true → t'.isDirectory l = true := by
  intro l hl
  exact (h.others l (Tree.ne_of_isDirectory hl h.free)).isDirectory hl

theorem Drafted.saved (h : Drafted draft content t t') (hne : p.place ≠ draft.place)
    (hrename : t'.rename draft p = .ok t'') : Saved content draft p t t'' := by
  obtain ⟨hnames, htarget, s, hs, hslashed, hfree, rfl⟩ := Tree.rename_eq_ok.mp hrename
  have hroot := hnames.place_ne_nil
  have hroot' := htarget.place_ne_nil
  rw [h.text, Option.some.injEq, Entry.file.injEq] at hs
  subst hs
  have hdirectories : ∀ l, t'.isDirectory l = true →
      ((t'.remove draft.place).put p.place (.file content)).isDirectory l = true := by
    intro l hl
    have hremoved : (t'.remove draft.place).isDirectory p.place = false := by
      rwa [Tree.isDirectory, Tree.get?_remove t' hroot, if_neg hne]
    exact Tree.isDirectory_put hroot' hremoved
      (Tree.isDirectory_remove hroot (Tree.isDirectory_of_file h.text) hl) _
  have htext : ((t'.remove draft.place).put p.place (.file content)).get? p.place =
      some (.file content) := by
    rw [Tree.get?_put _ hroot', if_pos rfl]
  exact {
    target := .inr (Tree.fileAt?_eq_some_iff.mpr htext)
    others := fun l hl hl' => ((h.others l hl').remove hroot hl').put hroot' hl _
    directories := fun l hl => hdirectories l (h.directories l hl)
    text := Tree.read_eq_ok.mpr ⟨htarget.kept hdirectories, htext, hslashed⟩
    gone := by
      rw [Tree.get?_put _ hroot', if_neg hne.symm, Tree.get?_remove t' hroot, if_pos rfl] }

/-! What is seen -/

theorem seen_of_kept (h : ∀ l, Kept t t' l) : Seen content draft p t t' where
  target := .inl (h p.place).fileAt?_eq
  others := fun l _ _ => h l
  directories := fun l hl => (h l).isDirectory hl

theorem Drafted.seen (h : Drafted draft text t t') (hne : p.place ≠ draft.place) :
    Seen content draft p t t' where
  target := .inl (h.others p.place hne).fileAt?_eq
  others := fun l _ hl => h.others l hl
  directories := h.directories

/-- Whoever could read the file before can do so at every moment, and gets the old text or the new
one. -/
theorem Seen.read {s : String} (h : Seen content draft p t t') (hread : t.read p = .ok s) :
    t'.read p = .ok s ∨ t'.read p = .ok content := by
  obtain ⟨hnames, htext, hslashed⟩ := Tree.read_eq_ok.mp hread
  have hnames' := hnames.kept h.directories
  rcases h.target with hold | hnew
  · rw [Tree.fileAt?_eq_some_iff.mpr htext, Tree.fileAt?_eq_some_iff] at hold
    exact .inl (Tree.read_eq_ok.mpr ⟨hnames', hold, hslashed⟩)
  · exact .inr (Tree.read_eq_ok.mpr ⟨hnames', Tree.fileAt?_eq_some_iff.mp hnew, hslashed⟩)

/-! What is left -/

theorem Left.others {e : IoError} (h : Left refuses content draft p e t t') :
    ∀ l, l ≠ draft.place → Kept t t' l := by
  cases h with
  | directories h => exact fun l _ => h l
  | part h hcause => exact h.others
  | draft h hcause => exact h.others

/-! The plan of a save -/

theorem holds_renaming (hne : p.place ≠ draft.place) :
    Holds refuses (Seen content draft p t) (Drafted draft content t)
      (.require (.rename draft p) (.finish (.ok ()))) (Ended refuses content draft p t) := by
  refine holds_require (fun t' h => h.seen hne) nofun
    (fun t' t'' h hrename => h.saved hne hrename) ?_ ?_
  · exact holds_finish (fun t' h => h.toSeen) fun t' h => h
  · intro e t' h hrefused
    exact .draft h (.inr hrefused)

theorem holds_syncing (hne : p.place ≠ draft.place) :
    Holds refuses (Seen content draft p t) (Drafted draft content t)
      (.require (.sync draft) <| .require (.rename draft p) <| .finish (.ok ()))
      (Ended refuses content draft p t) := by
  refine holds_require (fun t' h => h.seen hne) nofun ?_ (holds_renaming hne) ?_
  · rintro t' _ h ⟨⟩
    exact h
  · intro e t' h hrefused
    exact .draft h (.inl hrefused)

theorem holds_writing (hne : p.place ≠ draft.place) :
    Holds refuses (Seen content draft p t) (fun t' => ∃ text, Drafted draft text t t')
      (.require (.write draft content) <| .require (.sync draft) <| .require (.rename draft p) <|
        .finish (.ok ()))
      (Ended refuses content draft p t) := by
  refine holds_require ?_ ?_ ?_ (holds_syncing hne) ?_
  · rintro t' ⟨text, h⟩
    exact h.seen hne
  · rintro _ _ part t' t'' ⟨⟩ ⟨text, h⟩ hwrite
    exact ⟨part, h.write hwrite⟩
  · rintro t' t'' ⟨text, h⟩ hwrite
    exact h.write hwrite
  · rintro e t' ⟨text, h⟩ hrefused
    exact .part h hrefused

theorem holds_creating (hne : p.place ≠ draft.place) :
    Holds refuses (Seen content draft p t) (fun t' => ∀ l, Kept t t' l)
      (.require (.create draft) <| .require (.write draft content) <| .require (.sync draft) <|
        .require (.rename draft p) <| .finish (.ok ()))
      (Ended refuses content draft p t) := by
  refine holds_require (fun t' h => seen_of_kept h) nofun ?_ (holds_writing hne) ?_
  · intro t' t'' h hcreate
    exact ⟨"", drafted_create h hcreate⟩
  · intro e t' h _
    exact .directories h

end

/-! The draft of a file -/

/-- The name of the draft beside a path. -/
def draftName (format : Format) (p : Path) : String :=
  "." ++ p.fileName?.getD ("documents." ++ format.name) ++ ".tmp"

theorem draftName_length (format : Format) (p : Path) :
    (draftName format p).length =
      (p.fileName?.getD ("documents." ++ format.name)).length + 5 := by
  have hdot : ".".length = 1 := by decide
  have hend : ".tmp".length = 4 := by decide
  rw [draftName, String.length_append, String.length_append, hdot, hend]
  omega

theorem isName_draftName (format : Format) (p : Path) : IsName (draftName format p) := by
  have hlength := draftName_length format p
  have hdot : ".".length = 1 := by decide
  have hdots : "..".length = 2 := by decide
  constructor
  · intro h
    rw [h] at hlength
    omega
  · intro h
    rw [h] at hlength
    omega

theorem place_temporary (format : Format) (p : Path) :
    (temporary format p).place = p.parent.place ++ [draftName format p] :=
  Path.place_child (isName_draftName format p) p.parent

/-- The draft is never the file itself: its name is longer, and a path without a name leads further
up. -/
theorem place_ne_temporary (format : Format) (p : Path) :
    p.place ≠ (temporary format p).place := by
  rw [place_temporary]
  cases hlast : p.names.getLast? with
  | none =>
    rw [Path.place_of_no_names (List.getLast?_eq_none_iff.mp hlast)]
    simp
  | some name =>
    rw [Path.place_of_getLast? hlast]
    have hdot : name ≠ "." := by
      have hmem := List.mem_of_getLast? hlast
      simpa using (List.mem_filter.mp hmem).2
    by_cases hup : name = ".."
    · intro h
      have hlength := congrArg List.length h
      simp [enter, hup] at hlength
    · rw [enter_name ⟨hdot, hup⟩]
      intro h
      have hfile : p.fileName? = some name := by
        rw [Path.fileName?, hlast, Option.filter_some, if_pos (by simpa using hup)]
      have hlength := draftName_length format p
      rw [← List.head_eq_of_cons_eq (List.append_cancel_left h), hfile, Option.getD_some] at hlength
      omega

/-! A save, whatever fails -/

theorem holds_savePlan (refuses : Tree → Action → IoError → Prop) (content : String)
    (format : Format) (p : Path) (t : Tree) :
    Holds refuses (Seen content (temporary format p) p t) (fun t' => ∀ l, Kept t t' l)
      (savePlan content format p) (Ended refuses content (temporary format p) p t) := by
  refine holds_makeDirectories (fun t' h => seen_of_kept h) ?_ ?_ _
    (holds_creating (place_ne_temporary format p))
  · intro t' q h hroot hfree
    exact kept_makeDirectory h hroot hfree
  · intro e t' h
    exact .directories h

/-- The outcome of a save is that of its plan, where nothing fails but what the tree refuses. -/
theorem leads_save (documents : List Document) (format : Format) (p : Path) (t : Tree) :
    ∃ result, (save documents format p t).1 = result.mapError .io ∧
      Leads ownErrors (savePlan (render documents format) format p, t)
        (.finish result, (save documents format p t).2) :=
  ⟨_, rfl, leads_run _ t⟩

theorem ended_save (documents : List Document) (format : Format) (p : Path) (t : Tree) :
    ∃ result, (save documents format p t).1 = result.mapError .io ∧
      Ended ownErrors (render documents format) (temporary format p) p t result
        (save documents format p t).2 := by
  obtain ⟨result, hresult, hleads⟩ := leads_save documents format p t
  have hholds := holds_savePlan ownErrors (render documents format) format p t
  exact ⟨result, hresult, (hholds t (fun l => .inl rfl) _ _ hleads).2 result rfl⟩

/-- Files are replaced at once. At every moment of a save, whichever of its steps fails, the place
of the file holds what it held before or the whole new text, and who could read the file still can.
If the save succeeds, the new text is there, the draft beside it is gone, and no other file has
changed. -/
theorem replaced_at_once (documents : List Document) (format : Format) (p : Path) (t : Tree) :
    p.place ≠ (temporary format p).place ∧
    (∀ refuses rest t', Leads refuses (savePlan (render documents format) format p, t) (rest, t') →
      Seen (render documents format) (temporary format p) p t t' ∧
      (∀ s, t.read p = .ok s →
        t'.read p = .ok s ∨ t'.read p = .ok (render documents format)) ∧
      (rest = .finish (.ok ()) →
        Saved (render documents format) (temporary format p) p t t')) ∧
    (∃ result, (save documents format p t).1 = result.mapError .io ∧
      Leads ownErrors (savePlan (render documents format) format p, t)
        (.finish result, (save documents format p t).2)) ∧
    ((save documents format p t).1 = .ok () →
      Saved (render documents format) (temporary format p) p t (save documents format p t).2) := by
  refine ⟨place_ne_temporary format p, ?_, leads_save documents format p t, ?_⟩
  · intro refuses rest t' hleads
    obtain ⟨hseen, hended⟩ :=
      holds_savePlan refuses (render documents format) format p t t (fun l => .inl rfl) _ _ hleads
    exact ⟨hseen, fun s hread => hseen.read hread, fun hdone => hended _ hdone⟩
  · intro hok
    obtain ⟨result, hresult, hended⟩ := ended_save documents format p t
    rw [hok] at hresult
    cases result with
    | ok => exact hended
    | error e => cases hresult

/-! A file that is replaced, looked at in the middle of the new text -/

def letter : Document := { identifier := "a", repositoryIdentifier := "R" }

def letterText : String :=
  "[\n  \x7b\n    \"identifier\": \"a\",\n    \"repository_identifier\": \"R\"\n  \x7d\n]\n"

def note : Path := { parts := ["f"], slashed := false }

def shelf : Tree := ⟨[(["f"], .file "old")]⟩

def halfway : Tree := ⟨[([".f.tmp"], .file "["), (["f"], .file "old")]⟩

theorem note_replaced :
    (∃ rest, Leads ownErrors (savePlan (render [letter] .json) .json note, shelf)
        (rest, halfway)) ∧
      shelf.read note = .ok "old" ∧
      (halfway.read note = .ok "old" ∨ halfway.read note = .ok (render [letter] .json)) ∧
      (save [letter] .json note shelf).1 = .ok () ∧
      (save [letter] .json note shelf).2.read note = .ok letterText := by
  have hcreate : shelf.perform (.create (temporary .json note)) =
      .ok ⟨[([".f.tmp"], .file ""), (["f"], .file "old")]⟩ := by rfl
  have hwrite : Tree.write ⟨[([".f.tmp"], .file ""), (["f"], .file "old")]⟩
      (temporary .json note) "[" = .ok halfway := by rfl
  have hleads : ∃ rest,
      Leads ownErrors (savePlan (render [letter] .json) .json note, shelf) (rest, halfway) :=
    ⟨_, .head (.done hcreate) (.single (.writing hwrite))⟩
  have hread : shelf.read note = .ok "old" := by rfl
  have hsave : (save [letter] .json note shelf).1 = .ok () := by rfl
  have htext : render [letter] .json = letterText := by rfl
  obtain ⟨_, hmoments, _, hdone⟩ := replaced_at_once [letter] .json note shelf
  obtain ⟨rest, hrest⟩ := hleads
  refine ⟨⟨rest, hrest⟩, hread, (hmoments _ _ _ hrest).2.1 "old" hread, hsave, ?_⟩
  rw [(hdone hsave).text, htext]

end Harvest.Replacement
