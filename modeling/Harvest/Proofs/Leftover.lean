import Harvest.Proofs.Replacement

/-!
What a failed save leaves. Nobody takes the draft away, so that it stays where something fails after
it was made. Left to itself, a save fails so late only if no file can have the path, and then the
draft holds the whole text. Apart from the draft only directories are new.
-/
namespace Harvest.Leftover

open Files Output Replacement

/-- No file of the tree can have the path: a slash or dots are at its end, or it leads to a
directory. -/
inductive Unfit (t : Tree) (p : Path) : Prop
  | slash (h : p.slashed = true)
  | dots (h : ∀ name, p.parts.getLast? = some name → ¬ IsName name)
  | directory (h : t.isDirectory p.place = true)

/-! The draft and the file are in one directory -/

theorem fileName?_of_getLast? {p : Path} {name : String} (hlast : p.parts.getLast? = some name)
    (hname : IsName name) : p.fileName? = some name := by
  have hparts := List.dropLast_append_getLast? name hlast
  have hnames : p.names.getLast? = some name := by
    rw [Path.names, ← hparts, List.filter_append, List.getLast?_append,
      List.filter_cons_of_pos (by simpa using hname.1)]
    rfl
  rw [Path.fileName?, hnames, Option.filter_some, if_pos (by simpa using hname.2)]

theorem parent_parts_of_getLast? {p : Path} {name : String} (hlast : p.parts.getLast? = some name)
    (hname : IsName name) : p.parent.parts = p.parts.dropLast.filter (· != ".") := by
  have hparts := List.dropLast_append_getLast? name hlast
  change (p.parts.filter (· != ".")).dropLast = _
  conv_lhs => rw [← hparts, List.filter_append, List.filter_cons_of_pos (by simpa using hname.1)]
  simp

theorem temporary_parts {format : Format} {p : Path} {name : String}
    (hlast : p.parts.getLast? = some name) (hname : IsName name) :
    (temporary format p).parts =
      p.parts.dropLast.filter (· != ".") ++ ["." ++ name ++ ".tmp"] := by
  rw [temporary, Path.child, parent_parts_of_getLast? hlast hname,
    fileName?_of_getLast? hlast hname, Option.getD_some]

theorem no_zero_of_draft {parts : List String} {name : String}
    (h : ∀ part ∈ parts.filter (· != ".") ++ ["." ++ name ++ ".tmp"], '\x00' ∉ part.toList) :
    ∀ part ∈ parts ++ [name], '\x00' ∉ part.toList := by
  intro part hpart
  rcases List.mem_append.mp hpart with hpart | hpart
  · by_cases hdot : part = "."
    · rw [hdot]
      decide
    · exact h part (List.mem_append_left _ (List.mem_filter.mpr ⟨hpart, by simpa using hdot⟩))
  · intro hzero
    refine h _ (List.mem_append_right _ (List.mem_singleton_self _)) ?_
    rw [String.toList_append, String.toList_append, ← List.mem_singleton.mp hpart]
    exact List.mem_append_left _ (List.mem_append_right _ hzero)

/-- Where the draft can be, a path that ends in a name leads somewhere too: its name is shorter, and
the way to it is the same but for dots. -/
theorem names_of_temporary {format : Format} {p : Path} {t : Tree} {name : String}
    (h : t.Names (temporary format p)) (hlast : p.parts.getLast? = some name)
    (hname : IsName name) : t.Names p := by
  obtain ⟨directory, draft, hending⟩ := h
  obtain ⟨hzero, hdraft, hwalk, hdirectory, _, hlong⟩ := Tree.ending_eq_name_iff.mp hending
  rw [temporary_parts hlast hname] at hzero hdraft hwalk
  rw [List.dropLast_concat] at hwalk
  rw [List.getLast?_concat, Option.some.injEq] at hdraft
  rw [← hdraft, String.utf8ByteSize_append, String.utf8ByteSize_append] at hlong
  have hparts := List.dropLast_append_getLast? name hlast
  exact ⟨directory, name, Tree.ending_eq_name_iff.mpr
    ⟨hparts ▸ no_zero_of_draft hzero, hlast, Tree.walk_dotted hwalk hdirectory, hdirectory, hname,
      by omega⟩⟩

/-! What the tree refuses -/

section

variable {content text : String} {format : Format} {p : Path} {e : IoError} {t t' : Tree}

/-- The draft is there to be written. -/
theorem write_not_refused {draft : Path} (h : Drafted draft text t t') :
    ¬ ownErrors t' (.write draft content) e := by
  intro hrefused
  have hwrite : t'.write draft content = .ok (t'.put draft.place (.file content)) :=
    Tree.write_eq_ok.mpr ⟨h.names, ⟨text, h.text⟩, rfl⟩
  rw [ownErrors, Tree.perform, hwrite] at hrefused
  cases hrefused

theorem sync_not_refused {draft : Path} : ¬ ownErrors t' (.sync draft) e := nofun

theorem unfit_of_rename (h : Drafted (temporary format p) text t t')
    (hrefused : ownErrors t' (.rename (temporary format p) p) e) : Unfit t' p := by
  by_contra hfit
  have hname : ∃ name, p.parts.getLast? = some name ∧ IsName name := by
    by_contra hnone
    exact hfit (.dots fun name hlast hname => hnone ⟨name, hlast, hname⟩)
  obtain ⟨name, hlast, hname⟩ := hname
  have hslashed : p.slashed = false := by
    by_contra hslash
    exact hfit (.slash (by simpa using hslash))
  have hfree : t'.isDirectory p.place = false := by
    by_contra hdirectory
    exact hfit (.directory (by simpa using hdirectory))
  have hrename := Tree.rename_eq_ok.mpr
    ⟨h.names, names_of_temporary h.names hlast hname, text, h.text, hslashed, hfree, rfl⟩
  rw [ownErrors, Tree.perform, hrename] at hrefused
  cases hrefused

/-- Where only the tree refuses something, the draft stays in full, and only because the path is not
fit for a file. -/
theorem draft_of_ownErrors (h : Left ownErrors content (temporary format p) p e t t') :
    Kept t t' (temporary format p).place ∨
      t'.fileAt? (temporary format p).place = some content ∧ Unfit t' p := by
  cases h with
  | directories h => exact .inl (h _)
  | part h hcause => exact absurd hcause (write_not_refused h)
  | draft h hcause =>
    rcases hcause with hsync | hrename
    · exact absurd hsync sync_not_refused
    · exact .inr ⟨Tree.fileAt?_eq_some_iff.mpr h.text, unfit_of_rename h hrename⟩

/-- A file that was saved has a path that is fit for one. -/
theorem fit_of_saved {draft : Path} (h : Saved content draft p t t') : ¬ Unfit t p := by
  obtain ⟨⟨directory, name, hending⟩, hfile, hslashed⟩ := Tree.read_eq_ok.mp h.text
  intro hunfit
  cases hunfit with
  | slash hslash =>
    rw [hslashed] at hslash
    cases hslash
  | dots hdots =>
    obtain ⟨_, hlast, _, _, hname, _⟩ := Tree.ending_eq_name_iff.mp hending
    exact hdots name hlast hname
  | directory hdirectory =>
    have hthere := h.directories _ hdirectory
    rw [Tree.isDirectory_of_file hfile] at hthere
    cases hthere

end

def cabinet : Path := { parts := ["d"], slashed := false }

def room : Tree := ⟨[(["d"], .directory), ([".d.tmp"], .file "mine")]⟩

end Harvest.Leftover
