import Harvest.Files.Tree
import Harvest.Proofs.Lookup

/-!
Where paths lead. Nothing in a tree leads elsewhere, so that the place of a path is known without a
tree, and whoever follows the path and comes through ends there. What an operation does is told by
the places of its paths alone.
-/
namespace Harvest.Files

/-- One part of a path, followed from a location. -/
def enter (l : Location) (part : String) : Location :=
  if part == "." then l else if part == ".." then l.dropLast else l ++ [part]

/-- The location that a path leads to, if it leads anywhere. -/
def Path.place (p : Path) : Location := p.parts.foldl enter []

/-- Neither of the dots. -/
def IsName (part : String) : Prop := part ≠ "." ∧ part ≠ ".."

theorem enter_name {part : String} (h : IsName part) (l : Location) :
    enter l part = l ++ [part] := by
  rw [enter, beq_eq_false_iff_ne.mpr h.1, beq_eq_false_iff_ne.mpr h.2, if_neg Bool.false_ne_true,
    if_neg Bool.false_ne_true]

namespace Path

theorem foldl_enter_dotted (parts : List String) (l : Location) :
    (parts.filter (· != ".")).foldl enter l = parts.foldl enter l := by
  induction parts generalizing l with
  | nil => rfl
  | cons part rest ih =>
    by_cases hdot : part = "."
    · rw [List.filter_cons_of_neg (by simp [hdot]), ih, List.foldl_cons, hdot]
      rfl
    · rw [List.filter_cons_of_pos (by simpa using hdot), List.foldl_cons, List.foldl_cons, ih]

theorem place_child {name : String} (h : IsName name) (p : Path) :
    (p.child name).place = p.place ++ [name] := by
  rw [place, child, List.foldl_append]
  exact enter_name h p.place

/-- A path leads on from its parent by its last name. -/
theorem place_of_getLast? {p : Path} {name : String} (h : p.names.getLast? = some name) :
    p.place = enter p.parent.place name := by
  rw [place, ← foldl_enter_dotted]
  change p.names.foldl enter [] = _
  conv_lhs => rw [← List.dropLast_append_getLast? name h, List.foldl_append]
  rfl

theorem place_of_no_names {p : Path} (h : p.names = []) : p.place = [] := by
  rw [place, ← foldl_enter_dotted]
  change p.names.foldl enter [] = _
  rw [h]
  rfl

end Path

theorem bind_eq_ok {α β : Type} {x : Except IoError α} {f : α → Except IoError β} {b : β} :
    (x >>= f) = .ok b ↔ ∃ a, x = .ok a ∧ f a = .ok b := by
  cases x with
  | error e => simp [bind, Except.bind]
  | ok a => simp [bind, Except.bind]

namespace Tree

variable {t t' : Tree} {l l' k : Location} {p : Path}

/-! Entries -/

theorem isDirectory_iff : t.isDirectory l = true ↔ t.get? l = some .directory := beq_iff_eq

theorem get?_of_ne_nil (hl : l ≠ []) : t.get? l = t.entries.lookup l := by
  rw [get?, if_neg]
  rwa [List.isEmpty_iff]

theorem get?_remove (t : Tree) (hl : l ≠ []) (k : Location) :
    (t.remove l).get? k = if k = l then none else t.get? k := by
  by_cases hk : k = []
  · rw [hk, if_neg hl.symm]
    rfl
  · rw [get?_of_ne_nil hk, get?_of_ne_nil hk]
    exact Lookup.lookup_filter t.entries l k

theorem get?_put (t : Tree) (hl : l ≠ []) (e : Entry) (k : Location) :
    (t.put l e).get? k = if k = l then some e else t.get? k := by
  by_cases hk : k = []
  · rw [hk, if_neg hl.symm]
    rfl
  · rw [get?_of_ne_nil hk, put, Lookup.lookup_cons]
    by_cases hkl : k = l
    · rw [if_pos hkl, if_pos hkl]
    · rw [if_neg hkl, if_neg hkl, ← get?_of_ne_nil hk, get?_remove t hl, if_neg hkl]

theorem ne_of_isDirectory (hk : t.isDirectory k = true) (hl : t.isDirectory l = false) :
    k ≠ l := by
  rintro rfl
  rw [hl] at hk
  cases hk

theorem isDirectory_remove (hl : l ≠ []) (hfree : t.isDirectory l = false)
    (hk : t.isDirectory k = true) : (t.remove l).isDirectory k = true := by
  rwa [isDirectory, get?_remove t hl, if_neg (ne_of_isDirectory hk hfree)]

theorem isDirectory_put (hl : l ≠ []) (hfree : t.isDirectory l = false)
    (hk : t.isDirectory k = true) (e : Entry) : (t.put l e).isDirectory k = true := by
  rwa [isDirectory, get?_put t hl, if_neg (ne_of_isDirectory hk hfree)]

theorem isDirectory_of_file {content : String} (h : t.get? l = some (.file content)) :
    t.isDirectory l = false := by
  rw [isDirectory, h]
  rfl

/-- The content of the file at a location, if there is one. -/
def fileAt? (t : Tree) (l : Location) : Option String :=
  match t.get? l with
  | some (.file content) => some content
  | _ => none

theorem fileAt?_eq_some_iff {content : String} :
    t.fileAt? l = some content ↔ t.get? l = some (.file content) := by
  rw [fileAt?]
  rcases t.get? l with _ | old | _
  · simp
  · simp
  · simp

/-! Walks -/

/-- What a walk passes: a directory before each part, and something there for each name. -/
theorem walk_cons_eq_ok {part : String} {rest : List String} :
    t.walk l (part :: rest) = .ok l' ↔
      t.isDirectory l = true ∧ t.walk (enter l part) rest = .ok l' ∧
        (IsName part → part.utf8ByteSize ≤ longestName ∧ (t.get? (l ++ [part])).isSome = true) := by
  rw [walk]
  cases hl : t.isDirectory l with
  | false => simp
  | true =>
    by_cases hdot : part = "."
    · simp [hdot, enter, IsName]
    · by_cases hup : part = ".."
      · simp [hup, enter, IsName]
      · have hname : IsName part := ⟨hdot, hup⟩
        rw [enter_name hname]
        by_cases hlong : longestName < part.utf8ByteSize
        · simp [hdot, hup, hlong, hname, Nat.not_le.mpr hlong]
        · cases hentry : t.get? (l ++ [part]) with
          | none => simp [hdot, hup, hlong, hname]
          | some e => simp [hdot, hup, hlong, Nat.le_of_not_lt hlong]

theorem place_of_walk {parts : List String} (h : t.walk l parts = .ok l') :
    l' = parts.foldl enter l := by
  induction parts generalizing l with
  | nil =>
    cases h
    rfl
  | cons part rest ih => exact ih (walk_cons_eq_ok.mp h).2.1

theorem isDirectory_of_walk {parts : List String} (h : t.walk l parts = .ok l')
    (hl : t.isDirectory l' = true) : t.isDirectory l = true := by
  cases parts with
  | nil =>
    cases h
    exact hl
  | cons part rest => exact (walk_cons_eq_ok.mp h).1

/-- A walk to a directory goes through in any tree that has the same directories. -/
theorem walk_kept (hkept : ∀ l, t.isDirectory l = true → t'.isDirectory l = true)
    {parts : List String} (h : t.walk l parts = .ok l') (hl : t.isDirectory l' = true) :
    t'.walk l parts = .ok l' := by
  induction parts generalizing l with
  | nil => exact h
  | cons part rest ih =>
    obtain ⟨hfrom, hrest, hname⟩ := walk_cons_eq_ok.mp h
    refine walk_cons_eq_ok.mpr ⟨hkept l hfrom, ih hrest, fun hpart => ⟨(hname hpart).1, ?_⟩⟩
    have hnext := isDirectory_of_walk hrest hl
    rw [enter_name hpart] at hnext
    rw [isDirectory_iff.mp (hkept _ hnext)]
    rfl

/-- Single dots can be put into a walk to a directory. -/
theorem walk_dotted {parts : List String} (h : t.walk l (parts.filter (· != ".")) = .ok l')
    (hl : t.isDirectory l' = true) : t.walk l parts = .ok l' := by
  induction parts generalizing l with
  | nil => exact h
  | cons part rest ih =>
    by_cases hdot : part = "."
    · rw [List.filter_cons_of_neg (by simp [hdot])] at h
      refine walk_cons_eq_ok.mpr ⟨isDirectory_of_walk h hl, ?_, fun hname => absurd hdot hname.1⟩
      rw [hdot]
      exact ih h
    · rw [List.filter_cons_of_pos (by simpa using hdot)] at h
      obtain ⟨hfrom, hrest, hname⟩ := walk_cons_eq_ok.mp h
      exact walk_cons_eq_ok.mpr ⟨hfrom, ih hrest, hname⟩

/-! Paths that end in a name -/

/-- The path ends in a name that an entry of the tree can have. -/
def Names (t : Tree) (p : Path) : Prop := ∃ directory name, t.ending p = .ok (.name directory name)

theorem ending_eq_name_iff {directory : Location} {name : String} :
    t.ending p = .ok (.name directory name) ↔
      (∀ part ∈ p.parts, '\x00' ∉ part.toList) ∧ p.parts.getLast? = some name ∧
        t.walk [] p.parts.dropLast = .ok directory ∧ t.isDirectory directory = true ∧
          IsName name ∧ name.utf8ByteSize ≤ longestName := by
  rw [ending]
  by_cases hzero : ∀ part ∈ p.parts, '\x00' ∉ part.toList
  · rw [if_neg (by simpa using hzero)]
    cases hlast : p.parts.getLast? with
    | none => simp
    | some last =>
      rw [bind_eq_ok]
      constructor
      · rintro ⟨d, hwalk, h⟩
        split at h
        · cases h
        · split at h
          · cases h
          · split at h
            · cases h
            · cases h
              rename_i hd hname hlong
              exact ⟨hzero, rfl, hwalk, by simpa using hd, by simpa [IsName] using hname,
                Nat.le_of_not_lt hlong⟩
      · rintro ⟨-, hname, hwalk, hd, hnamed, hlong⟩
        obtain rfl := Option.some.inj hname
        refine ⟨directory, hwalk, ?_⟩
        rw [hd, beq_eq_false_iff_ne.mpr hnamed.1, beq_eq_false_iff_ne.mpr hnamed.2]
        simp [Nat.not_lt.mpr hlong]
  · rw [if_pos (by simpa using hzero)]
    simp only [reduceCtorEq, hzero, false_and]

theorem place_of_ending {directory : Location} {name : String}
    (h : t.ending p = .ok (.name directory name)) : directory ++ [name] = p.place := by
  obtain ⟨_, hlast, hwalk, _, hname, _⟩ := ending_eq_name_iff.mp h
  rw [Path.place, ← List.dropLast_append_getLast? name hlast, List.foldl_append,
    ← place_of_walk hwalk]
  exact (enter_name hname directory).symm

theorem Names.place_ne_nil (h : t.Names p) : p.place ≠ [] := by
  obtain ⟨directory, name, h⟩ := h
  rw [← place_of_ending h]
  simp

/-- A path still ends in a name where all directories are still there. -/
theorem Names.kept (h : t.Names p)
    (hkept : ∀ l, t.isDirectory l = true → t'.isDirectory l = true) : t'.Names p := by
  obtain ⟨directory, name, h⟩ := h
  obtain ⟨hzero, hlast, hwalk, hd, hname⟩ := ending_eq_name_iff.mp h
  exact ⟨directory, name,
    ending_eq_name_iff.mpr ⟨hzero, hlast, walk_kept hkept hwalk hd, hkept _ hd, hname⟩⟩

/-! Operations -/

/-- What is done at the end of a path is done at its place, and only if the path ends in a name. -/
theorem ending_bind_eq_ok {α : Type} {f : Ending → Except IoError α} {a : α} (P : Location → Prop)
    (hdots : f .dots ≠ .ok a)
    (hname : ∀ directory name, f (.name directory name) = .ok a ↔ P (directory ++ [name])) :
    (t.ending p >>= f) = .ok a ↔ t.Names p ∧ P p.place := by
  rw [bind_eq_ok]
  constructor
  · rintro ⟨e, he, hf⟩
    cases e with
    | dots => exact absurd hf hdots
    | name directory name =>
      rw [hname, place_of_ending he] at hf
      exact ⟨⟨directory, name, he⟩, hf⟩
  · rintro ⟨⟨directory, name, he⟩, hplace⟩
    exact ⟨_, he, (hname directory name).mpr (place_of_ending he ▸ hplace)⟩

theorem makeDirectory_eq_ok :
    t.makeDirectory p = .ok t' ↔
      t.Names p ∧ t.get? p.place = none ∧ t' = t.put p.place .directory := by
  refine ending_bind_eq_ok (fun l => t.get? l = none ∧ t' = t.put l .directory) nofun ?_
  intro directory name
  cases hentry : t.get? (directory ++ [name]) with
  | none => simp [hentry, eq_comm]
  | some e => simp [hentry]

theorem create_eq_ok :
    t.create p = .ok t' ↔
      t.Names p ∧ t.isDirectory p.place = false ∧ t' = t.put p.place (.file "") := by
  refine ending_bind_eq_ok (fun l => t.isDirectory l = false ∧ t' = t.put l (.file "")) nofun ?_
  intro directory name
  cases hentry : t.isDirectory (directory ++ [name]) with
  | true => simp [hentry]
  | false => simp [hentry, eq_comm]

theorem write_eq_ok {content : String} :
    t.write p content = .ok t' ↔
      t.Names p ∧ (∃ old, t.get? p.place = some (.file old)) ∧
        t' = t.put p.place (.file content) := by
  refine ending_bind_eq_ok
    (fun l => (∃ old, t.get? l = some (.file old)) ∧ t' = t.put l (.file content)) nofun ?_
  intro directory name
  rcases hentry : t.get? (directory ++ [name]) with _ | old | _
  · simp [hentry]
  · simp [hentry, eq_comm]
  · simp [hentry]

theorem read_eq_ok {content : String} :
    t.read p = .ok content ↔
      t.Names p ∧ t.get? p.place = some (.file content) ∧ p.slashed = false := by
  refine ending_bind_eq_ok
    (fun l => t.get? l = some (.file content) ∧ p.slashed = false) nofun ?_
  intro directory name
  rcases hentry : t.get? (directory ++ [name]) with _ | old | _
  · simp [hentry]
  · cases p.slashed with
    | true => simp [hentry]
    | false => simp [hentry]
  · simp [hentry]

theorem eq_of_checkDirectory (h : t.checkDirectory p = .ok t') : t' = t := by
  rw [checkDirectory, bind_eq_ok] at h
  obtain ⟨l, _, h⟩ := h
  split at h
  · cases h
    rfl
  · cases h

theorem renameFile_eq_ok {source target : Location} {content : String} {slashed : Bool} :
    t.renameFile source target content slashed = .ok t' ↔
      slashed = false ∧ t.isDirectory target = false ∧
        t' = (t.remove source).put target (.file content) := by
  rw [renameFile]
  cases slashed with
  | true => simp
  | false =>
    cases t.isDirectory target with
    | true => simp
    | false => simp [eq_comm]

/-- A file is renamed only to a name that is not that of a directory and has no slash behind it. -/
theorem rename_eq_ok {source target : Path} :
    t.rename source target = .ok t' ↔
      t.Names source ∧ t.Names target ∧ ∃ content, t.get? source.place = some (.file content) ∧
        target.slashed = false ∧ t.isDirectory target.place = false ∧
          t' = (t.remove source.place).put target.place (.file content) := by
  rw [rename]
  constructor
  · intro h
    obtain ⟨e, he, h⟩ := bind_eq_ok.mp h
    obtain ⟨e', he', h⟩ := bind_eq_ok.mp h
    rcases e with ⟨a, x⟩ | _
    · rcases e' with ⟨b, y⟩ | _
      · simp only [place_of_ending he, place_of_ending he'] at h
        rcases hentry : t.get? source.place with _ | content | _
        · simp [hentry] at h
        · simp only [hentry] at h
          exact ⟨⟨a, x, he⟩, ⟨b, y, he'⟩, content, rfl, renameFile_eq_ok.mp h⟩
        · simp [hentry] at h
      · cases h
    · cases h
  · rintro ⟨⟨a, x, ha⟩, ⟨b, y, hb⟩, content, hentry, hfile⟩
    refine bind_eq_ok.mpr ⟨_, ha, bind_eq_ok.mpr ⟨_, hb, ?_⟩⟩
    simp only [place_of_ending ha, place_of_ending hb, hentry]
    exact renameFile_eq_ok.mpr hfile

end Tree
end Harvest.Files
