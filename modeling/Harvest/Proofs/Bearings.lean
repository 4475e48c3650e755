import Harvest.Crosswalk.DataCite
import Harvest.Crosswalk.Iso19139
import Harvest.Proofs.Blanks

/-!
Coordinates read as words, and as elements. The words of a text are all that its coordinates are
read from, however many blanks are between them, and an element that holds a single word gives the
coordinate of this word. So a place is read alike in every schema, if only each writes its
coordinates in its own order.
-/
namespace Harvest.Bearings

open Text Blanks Xml Number Crosswalk

/-- A word has characters, none of which is blank. -/
structure IsWord (x : String) : Prop where
  written : x.toList ≠ []
  solid : ∀ c ∈ x.toList, isBlank c = false

/-- The text is made of the words, in this order, with blanks between them, and with blanks or none
around them. -/
inductive Spaced : List String → List Char → Prop
  | nil {gap : List Char} (hgap : gap.all isBlank = true) : Spaced [] gap
  | cons {gap rest : List Char} {x : String} {more : List String}
      (hgap : gap.all isBlank = true) (hword : IsWord x) (hend : ∀ c ∈ rest.head?, isBlank c = true)
      (hrest : Spaced more rest) : Spaced (x :: more) (gap ++ x.toList ++ rest)

/-- The first child of that name holds this word. -/
def Bears (e : Element) (tag x : String) : Prop :=
  ∃ child, e.child? tag = some child ∧ Spaced [x] child.characters

/-! Words in the middle of a text -/

theorem wordsFrom_gap {gap : List Char} (h : gap.all isBlank = true) (s : List Char) :
    wordsFrom [] (gap ++ s) = wordsFrom [] s := by
  induction gap with
  | nil => rfl
  | cons c gap ih =>
    rw [List.all_cons, Bool.and_eq_true] at h
    rw [List.cons_append, wordsFrom, if_pos h.1, List.isEmpty_nil, if_pos rfl, ih h.2]

theorem wordsFrom_solid {w : List Char} (h : ∀ c ∈ w, isBlank c = false)
    (pending s : List Char) : wordsFrom pending (w ++ s) = wordsFrom (w.reverse ++ pending) s := by
  induction w generalizing pending with
  | nil => rfl
  | cons c w ih =>
    have hc : isBlank c = false := h c List.mem_cons_self
    rw [List.cons_append, wordsFrom, if_neg (by simp [hc]),
      ih fun d hd => h d (List.mem_cons_of_mem c hd), List.reverse_cons, List.append_assoc,
      List.singleton_append]

/-- A word ends where the text does, and before a blank. -/
theorem wordsFrom_end {pending s : List Char} (hpending : pending ≠ [])
    (hs : ∀ c ∈ s.head?, isBlank c = true) :
    wordsFrom pending s = pending.reverse :: wordsFrom [] s := by
  have hnot : pending.isEmpty = false := by simpa using hpending
  cases s with
  | nil => simp [wordsFrom, hnot]
  | cons c s =>
    have hc : isBlank c = true := hs c rfl
    simp [wordsFrom, hnot, hc]

theorem words_of_spaced {ws : List String} {s : List Char} (h : Spaced ws s) :
    (wordsOf s).map String.ofList = ws := by
  rw [wordsOf]
  induction h with
  | @nil gap hgap =>
    have hnil := wordsFrom_gap hgap []
    rw [List.append_nil] at hnil
    rw [hnil]
    rfl
  | @cons gap rest x more hgap hword hend _ ih =>
    have hpending : x.toList.reverse ++ [] ≠ [] := by simpa using hword.written
    rw [List.append_assoc, wordsFrom_gap hgap, wordsFrom_solid hword.solid,
      wordsFrom_end hpending hend, List.map_cons, ih, List.append_nil, List.reverse_reverse,
      String.ofList_toList]

theorem spaced_cons_blank {c : Char} (hc : isBlank c = true) {ws : List String} {s : List Char}
    (h : Spaced ws s) : Spaced ws (c :: s) := by
  cases h with
  | nil hgap => exact .nil (by simp [hc, hgap])
  | @cons gap rest x more hgap hword hend hrest =>
    have hgap' : (c :: gap).all isBlank = true := by simp [hc, hgap]
    exact .cons hgap' hword hend hrest

theorem spaced_reverse {pending rest : List Char} (hpending : pending ≠ [])
    (hsolid : ∀ c ∈ pending, isBlank c = false) (hend : ∀ c ∈ rest.head?, isBlank c = true)
    {more : List String} (hrest : Spaced more rest) :
    Spaced (String.ofList pending.reverse :: more) (pending.reverse ++ rest) := by
  have hword : IsWord (String.ofList pending.reverse) := by
    constructor
    · simpa using hpending
    · intro c hc
      rw [String.toList_ofList] at hc
      exact hsolid c (List.mem_reverse.mp hc)
  have hspaced : Spaced (String.ofList pending.reverse :: more)
      ([] ++ (String.ofList pending.reverse).toList ++ rest) := .cons rfl hword hend hrest
  rw [String.toList_ofList] at hspaced
  exact hspaced

/-- What is read is made of the words found in it, the one being read included. -/
theorem spaced_wordsFrom {pending : List Char} (hpending : ∀ c ∈ pending, isBlank c = false)
    (s : List Char) :
    Spaced ((wordsFrom pending s).map String.ofList) (pending.reverse ++ s) := by
  induction s generalizing pending with
  | nil =>
    rw [wordsFrom]
    split
    · next hempty =>
      rw [List.isEmpty_iff.mp hempty]
      exact .nil rfl
    · next hnot =>
      exact spaced_reverse (by simpa using hnot) hpending (fun c hc => by cases hc) (.nil rfl)
  | cons c s ih =>
    have hrest : Spaced ((wordsFrom [] s).map String.ofList) s :=
      ih fun d hd => absurd hd List.not_mem_nil
    rw [wordsFrom]
    split
    · next hc =>
      have hblank : Spaced ((wordsFrom [] s).map String.ofList) (c :: s) :=
        spaced_cons_blank hc hrest
      split
      · next hempty =>
        rw [List.isEmpty_iff.mp hempty]
        exact hblank
      · next hnot =>
        have hend : ∀ d ∈ (c :: s).head?, isBlank d = true := by
          intro d hd
          cases hd
          exact hc
        exact spaced_reverse (by simpa using hnot) hpending hend hblank
    · next hc =>
      have hsolid : ∀ d ∈ c :: pending, isBlank d = false := by
        intro d hd
        rcases List.mem_cons.mp hd with rfl | hd
        · simpa using hc
        · exact hpending d hd
      have hspaced := ih hsolid
      rw [List.reverse_cons, List.append_assoc] at hspaced
      exact hspaced

/-- The words of a text are those it is made of. -/
theorem spaced_iff {ws : List String} {s : List Char} :
    Spaced ws s ↔ (wordsOf s).map String.ofList = ws := by
  constructor
  · exact words_of_spaced
  · intro h
    have hnone : ∀ c ∈ ([] : List Char), isBlank c = false :=
      fun c hc => absurd hc List.not_mem_nil
    rw [← h]
    exact spaced_wordsFrom hnone s

theorem words_of_text {ws : List String} {t : String} (h : Spaced ws t.toList) : words t = ws :=
  spaced_iff.mp h

/-! Blanks around a text -/

theorem wordsFrom_append_gap {gap : List Char} (h : gap.all isBlank = true)
    (pending s : List Char) : wordsFrom pending (s ++ gap) = wordsFrom pending s := by
  induction s generalizing pending with
  | nil =>
    have hgap := wordsFrom_gap h []
    rw [List.append_nil] at hgap
    rw [List.nil_append]
    by_cases hpending : pending = []
    · rw [hpending, hgap]
    · have hhead : ∀ c ∈ gap.head?, isBlank c = true := fun c hc =>
        List.all_eq_true.mp h c (List.mem_of_mem_head? hc)
      have hnone : ∀ c ∈ ([] : List Char).head?, isBlank c = true := fun c hc => by cases hc
      rw [wordsFrom_end hpending hhead, hgap, wordsFrom_end hpending hnone]
  | cons c s ih => rw [List.cons_append, wordsFrom, wordsFrom, ih, ih]

/-- Trimming takes no word off. -/
theorem wordsOf_trimChars (s : List Char) : wordsOf (trimChars s) = wordsOf s := by
  obtain ⟨rest, hblank, hrest⟩ := trimEnd_append_rest (trimStart s)
  calc
    wordsOf (trimChars s) = wordsOf (trimChars s ++ rest) :=
      (wordsFrom_append_gap hblank [] (trimChars s)).symm
    _ = wordsOf (trimStart s) := by rw [trimChars, hrest]
    _ = wordsOf (s.takeWhile isBlank ++ trimStart s) :=
      (wordsFrom_gap List.all_takeWhile (trimStart s)).symm
    _ = wordsOf s := by rw [trimStart, List.takeWhile_append_dropWhile]

theorem spaced_text {ws : List String} {e : Element} :
    Spaced ws e.text.toList ↔ Spaced ws e.characters := by
  rw [spaced_iff, spaced_iff, Element.text, String.toList_ofList, wordsOf_trimChars]

/-! One coordinate -/

theorem trimChars_of_spaced {x : String} {s : List Char} (h : Spaced [x] s) :
    IsWord x ∧ trimChars s = x.toList := by
  cases h with
  | cons hgap hword _ hrest =>
    cases hrest with
    | nil hblank =>
      exact ⟨hword, by rw [trimChars_surrounded hgap hblank, trimChars_of_solid hword.solid]⟩

theorem childCoordinate_of_bears {e : Element} {tag x : String} (h : Bears e tag x) :
    childCoordinate tag e = readCoordinate x := by
  obtain ⟨child, hchild, hspaced⟩ := h
  obtain ⟨hword, htrim⟩ := trimChars_of_spaced hspaced
  have htext : child.text = x := by rw [Element.text, htrim, String.ofList_toList]
  have hempty : x.isEmpty = false := by
    rw [Bool.eq_false_iff]
    intro hempty
    exact hword.written (by rw [String.isEmpty_iff.mp hempty]; rfl)
  have hcontent : child.content? = some x := by
    rw [Element.content?, htext, nonEmpty, hempty, if_neg Bool.false_ne_true]
  rw [childCoordinate, Element.childText?, hchild, Option.bind_some, hcontent, Option.bind_some]

/-! All coordinates of a text -/

theorem mapM_eq_some_iff {α β : Type} {f : α → Option β} {xs : List α} {ys : List β} :
    xs.mapM f = some ys ↔ xs.map f = ys.map some := by
  induction xs generalizing ys with
  | nil => cases ys <;> simp
  | cons x xs ih =>
    rw [List.mapM_cons, List.map_cons]
    cases hx : f x with
    | none => cases ys <;> simp
    | some y => cases hxs : xs.mapM f <;> cases ys <;> simp [← ih, hxs]

theorem readCoordinates_eq_some_iff {ws : List String} {t : String} (h : Spaced ws t.toList)
    {coordinates : List Binary64} :
    readCoordinates t = some coordinates ↔ ws.map readCoordinate = coordinates.map some := by
  rw [readCoordinates, words_of_text h, mapM_eq_some_iff]

theorem length_of_readCoordinates {ws : List String} {t : String} (h : Spaced ws t.toList)
    {coordinates : List Binary64} (hread : readCoordinates t = some coordinates) :
    ws.length = coordinates.length := by
  have hmap := congrArg List.length ((readCoordinates_eq_some_iff h).mp hread)
  rwa [List.length_map, List.length_map] at hmap

/-! Points and boxes -/

theorem pointLongitudeFirst_eq_some_iff {t : String} {p : Point} :
    pointLongitudeFirst t = some p ↔ readCoordinates t = some [p.longitude, p.latitude] := by
  unfold pointLongitudeFirst
  split
  · next longitude latitude hread =>
    rw [hread]
    cases p
    simp
  · next hnot => exact ⟨nofun, fun h => absurd h (hnot _ _)⟩

theorem pointLatitudeFirst_eq_some_iff {t : String} {p : Point} :
    pointLatitudeFirst t = some p ↔ readCoordinates t = some [p.latitude, p.longitude] := by
  unfold pointLatitudeFirst
  split
  · next latitude longitude hread =>
    rw [hread]
    cases p
    simp [and_comm]
  · next hnot => exact ⟨nofun, fun h => absurd h (hnot _ _)⟩

theorem boxByBounds_eq_some_iff {t : String} {b : BoundingBox} :
    boxByBounds t = some b ↔ readCoordinates t = some [b.west, b.east, b.south, b.north] := by
  unfold boxByBounds
  split
  · next west east south north hread =>
    rw [hread]
    cases b
    simp
  · next hnot => exact ⟨nofun, fun h => absurd h (hnot _ _ _ _)⟩

theorem boxByCorners_eq_some_iff {t : String} {b : BoundingBox} :
    boxByCorners t = some b ↔ readCoordinates t = some [b.south, b.west, b.north, b.east] := by
  unfold boxByCorners
  split
  · next south west north east hread =>
    rw [hread]
    cases b
    simp only [Option.some.injEq, BoundingBox.mk.injEq, List.cons.injEq, and_true]
    exact ⟨fun ⟨hw, he, hs, hn⟩ => ⟨hs, hw, hn, he⟩, fun ⟨hs, hw, hn, he⟩ => ⟨hw, he, hs, hn⟩⟩
  · next hnot => exact ⟨nofun, fun h => absurd h (hnot _ _ _ _)⟩

theorem pointOfElement_eq_some_iff {e : Element} {p : Point} :
    pointOfElement e = some p ↔
      childCoordinate "pointLongitude" e = some p.longitude ∧
        childCoordinate "pointLatitude" e = some p.latitude := by
  unfold pointOfElement
  cases p
  cases childCoordinate "pointLongitude" e <;> cases childCoordinate "pointLatitude" e <;> simp

theorem boxOfElement_eq_some_iff {e : Element} {b : BoundingBox} :
    boxOfElement e = some b ↔
      childCoordinate "westBoundLongitude" e = some b.west ∧
        childCoordinate "eastBoundLongitude" e = some b.east ∧
        childCoordinate "southBoundLatitude" e = some b.south ∧
        childCoordinate "northBoundLatitude" e = some b.north := by
  unfold boxOfElement
  cases b
  cases childCoordinate "westBoundLongitude" e <;>
    cases childCoordinate "eastBoundLongitude" e <;>
    cases childCoordinate "southBoundLatitude" e <;>
    cases childCoordinate "northBoundLatitude" e <;> simp

/-- Kernel 4 and ISO 19139 read the same box from an element. -/
theorem boxOf_eq_boxOfElement (e : Element) : Iso19139.boxOf e = boxOfElement e := rfl

theorem point_agrees {x y text turned : String} {e : Element} (htext : Spaced [x, y] text.toList)
    (hturned : Spaced [y, x] turned.toList) (hlongitude : Bears e "pointLongitude" x)
    (hlatitude : Bears e "pointLatitude" y) :
    pointLongitudeFirst text = pointOfElement e ∧ pointLatitudeFirst turned = pointOfElement e ∧
      ∀ p, pointOfElement e = some p ↔
        readCoordinate x = some p.longitude ∧ readCoordinate y = some p.latitude := by
  have helement (p : Point) : pointOfElement e = some p ↔
      readCoordinate x = some p.longitude ∧ readCoordinate y = some p.latitude := by
    rw [pointOfElement_eq_some_iff, childCoordinate_of_bears hlongitude,
      childCoordinate_of_bears hlatitude]
  refine ⟨Option.ext fun p => ?_, Option.ext fun p => ?_, helement⟩
  · rw [helement, pointLongitudeFirst_eq_some_iff, readCoordinates_eq_some_iff htext]
    simp
  · rw [helement, pointLatitudeFirst_eq_some_iff, readCoordinates_eq_some_iff hturned]
    simp [and_comm]

theorem box_agrees {w e s n bounds corners : String} {box : Element}
    (hbounds : Spaced [w, e, s, n] bounds.toList) (hcorners : Spaced [s, w, n, e] corners.toList)
    (hwest : Bears box "westBoundLongitude" w) (heast : Bears box "eastBoundLongitude" e)
    (hsouth : Bears box "southBoundLatitude" s) (hnorth : Bears box "northBoundLatitude" n) :
    boxByBounds bounds = boxOfElement box ∧ boxByCorners corners = boxOfElement box ∧
      ∀ b, boxOfElement box = some b ↔
        readCoordinate w = some b.west ∧ readCoordinate e = some b.east ∧
          readCoordinate s = some b.south ∧ readCoordinate n = some b.north := by
  have helement (b : BoundingBox) : boxOfElement box = some b ↔
      readCoordinate w = some b.west ∧ readCoordinate e = some b.east ∧
        readCoordinate s = some b.south ∧ readCoordinate n = some b.north := by
    rw [boxOfElement_eq_some_iff, childCoordinate_of_bears hwest, childCoordinate_of_bears heast,
      childCoordinate_of_bears hsouth, childCoordinate_of_bears hnorth]
  refine ⟨Option.ext fun b => ?_, Option.ext fun b => ?_, helement⟩
  · rw [helement, boxByBounds_eq_some_iff, readCoordinates_eq_some_iff hbounds]
    simp
  · rw [helement, boxByCorners_eq_some_iff, readCoordinates_eq_some_iff hcorners]
    simp only [List.map_cons, List.map_nil, List.cons.injEq, and_true]
    exact ⟨fun ⟨hs, hw, hn, he⟩ => ⟨hw, he, hs, hn⟩, fun ⟨hw, he, hs, hn⟩ => ⟨hs, hw, hn, he⟩⟩

/-- Texts of the same words have the same coordinates. -/
theorem readCoordinates_congr {ws : List String} {t t' : String} (h : Spaced ws t.toList)
    (h' : Spaced ws t'.toList) : readCoordinates t = readCoordinates t' := by
  rw [readCoordinates, readCoordinates, words_of_text h, words_of_text h']

theorem readers_congr {ws : List String} {t t' : String} (h : Spaced ws t.toList)
    (h' : Spaced ws t'.toList) :
    pointLongitudeFirst t = pointLongitudeFirst t' ∧ pointLatitudeFirst t = pointLatitudeFirst t' ∧
      boxByBounds t = boxByBounds t' ∧ boxByCorners t = boxByCorners t' := by
  have hread : readCoordinates t = readCoordinates t' := readCoordinates_congr h h'
  unfold pointLongitudeFirst pointLatitudeFirst boxByBounds boxByCorners
  rw [hread]
  exact ⟨rfl, rfl, rfl, rfl⟩

/-- A text of any other number of words has no point or no box. -/
theorem none_of_length {ws : List String} {t : String} (h : Spaced ws t.toList) :
    (ws.length ≠ 2 → pointLongitudeFirst t = none ∧ pointLatitudeFirst t = none) ∧
      (ws.length ≠ 4 → boxByBounds t = none ∧ boxByCorners t = none) := by
  refine ⟨fun htwo => ⟨?_, ?_⟩, fun hfour => ⟨?_, ?_⟩⟩
  · refine Option.eq_none_iff_forall_ne_some.mpr fun p hp => htwo ?_
    exact length_of_readCoordinates h (pointLongitudeFirst_eq_some_iff.mp hp)
  · refine Option.eq_none_iff_forall_ne_some.mpr fun p hp => htwo ?_
    exact length_of_readCoordinates h (pointLatitudeFirst_eq_some_iff.mp hp)
  · refine Option.eq_none_iff_forall_ne_some.mpr fun b hb => hfour ?_
    exact length_of_readCoordinates h (boxByBounds_eq_some_iff.mp hb)
  · refine Option.eq_none_iff_forall_ne_some.mpr fun b hb => hfour ?_
    exact length_of_readCoordinates h (boxByCorners_eq_some_iff.mp hb)

/-- Where texts and elements hold the same words, each in the order of its schema, they give the
same point or box, or all of them none. Only the words count: blanks between and around them make no
difference, neither in a text nor in an element that holds it. Every text has its words, and with
any other number of them than is needed there is no point or box. -/
theorem same_place_in_every_schema :
    (∀ (x y text turned : String) (e : Element), Spaced [x, y] text.toList →
      Spaced [y, x] turned.toList → Bears e "pointLongitude" x → Bears e "pointLatitude" y →
      pointLongitudeFirst text = DataCite.places4.point e ∧
        pointLatitudeFirst turned = DataCite.places4.point e ∧
        ∀ p, DataCite.places4.point e = some p ↔
          readCoordinate x = some p.longitude ∧ readCoordinate y = some p.latitude) ∧
    (∀ (w e s n bounds corners : String) (box extent : Element),
      Spaced [w, e, s, n] bounds.toList → Spaced [s, w, n, e] corners.toList →
      Bears box "westBoundLongitude" w → Bears box "eastBoundLongitude" e →
      Bears box "southBoundLatitude" s → Bears box "northBoundLatitude" n →
      extent.descendant? "EX_GeographicBoundingBox" = some box →
      boxByBounds bounds = DataCite.places4.box box ∧
        boxByCorners corners = DataCite.places4.box box ∧
        (Iso19139.extentOf extent).boundingBox = DataCite.places4.box box ∧
        ∀ b, DataCite.places4.box box = some b ↔
          readCoordinate w = some b.west ∧ readCoordinate e = some b.east ∧
            readCoordinate s = some b.south ∧ readCoordinate n = some b.north) ∧
    (∀ (ws : List String) (t t' : String), Spaced ws t.toList → Spaced ws t'.toList →
      pointLongitudeFirst t = pointLongitudeFirst t' ∧
        pointLatitudeFirst t = pointLatitudeFirst t' ∧
        boxByBounds t = boxByBounds t' ∧ boxByCorners t = boxByCorners t') ∧
    (∀ (ws : List String) (t : String), Spaced ws t.toList →
      (ws.length ≠ 2 → pointLongitudeFirst t = none ∧ pointLatitudeFirst t = none) ∧
        (ws.length ≠ 4 → boxByBounds t = none ∧ boxByCorners t = none)) ∧
    (∀ t : String, ∃ ws, Spaced ws t.toList ∧ ∀ ws', Spaced ws' t.toList → ws' = ws) ∧
    ∀ (ws : List String) (t : String) (e : Element),
      Spaced ws t.toList → Spaced ws e.characters →
      DataCite.places2.point e = pointLongitudeFirst t ∧
        DataCite.places3.point e = pointLatitudeFirst t ∧
        DataCite.places2.box e = boxByBounds t ∧ DataCite.places3.box e = boxByCorners t := by
  refine ⟨fun x y text turned e htext hturned hlongitude hlatitude =>
      point_agrees htext hturned hlongitude hlatitude, ?_,
    fun ws t t' h h' => readers_congr h h', fun ws t h => none_of_length h, ?_, ?_⟩
  · intro w e s n bounds corners box extent hbounds hcorners hwest heast hsouth hnorth hextent
    obtain ⟨hfirst, hsecond, hbox⟩ := box_agrees hbounds hcorners hwest heast hsouth hnorth
    have hiso : (Iso19139.extentOf extent).boundingBox = boxOfElement box := by
      rw [← boxOf_eq_boxOfElement, Iso19139.extentOf, hextent, Option.bind_some]
    exact ⟨hfirst, hsecond, hiso, hbox⟩
  · intro t
    exact ⟨words t, spaced_iff.mpr rfl, fun ws h => (words_of_text h).symm⟩
  · intro ws t e h he
    exact readers_congr (spaced_text.mpr he) h

/-! A town, and the land around it -/

def coordinate (tag written : String) : Node := .element (.mk tag none [] [.text written])

def town : Element :=
  .mk "geoLocationPoint" none []
    [coordinate "pointLatitude" "52.5 ", coordinate "pointLongitude" " 13.4"]

def land : Element :=
  .mk "EX_GeographicBoundingBox" none []
    [coordinate "westBoundLongitude" "11.2", coordinate "eastBoundLongitude" " 14.8",
      coordinate "southBoundLatitude" "51.3 ", coordinate "northBoundLatitude" "north"]

/-- The town is found. The land is not, since one of its bounds is no number. -/
theorem town_found :
    pointLongitudeFirst "13.4\t52.5" = DataCite.places4.point town ∧
      pointLatitudeFirst " 52.5  13.4\n" = DataCite.places4.point town ∧
      (DataCite.places4.point town).isSome = true ∧
      boxByBounds "11.2 14.8 51.3 north" = DataCite.places4.box land ∧
      boxByCorners "51.3 11.2  north 14.8" = DataCite.places4.box land ∧
      DataCite.places4.box land = none ∧
      pointLongitudeFirst "13.4 52.5 8" = none := by
  obtain ⟨hpoints, hboxes, _, hcounts, _, _⟩ := same_place_in_every_schema
  have hpoint : pointLongitudeFirst "13.4\t52.5" = DataCite.places4.point town ∧ _ :=
    hpoints "13.4" "52.5" "13.4\t52.5" " 52.5  13.4\n" town
      (spaced_iff.mpr (by decide)) (spaced_iff.mpr (by decide))
      ⟨_, rfl, spaced_iff.mpr (by decide)⟩
      ⟨_, rfl, spaced_iff.mpr (by decide)⟩
  have hbox : boxByBounds "11.2 14.8 51.3 north" = DataCite.places4.box land ∧ _ :=
    hboxes "11.2" "14.8" "51.3" "north" "11.2 14.8 51.3 north" "51.3 11.2  north 14.8" land
      (.mk "EX_Extent" none [] [.element land])
      (spaced_iff.mpr (by decide)) (spaced_iff.mpr (by decide))
      ⟨_, rfl, spaced_iff.mpr (by decide)⟩
      ⟨_, rfl, spaced_iff.mpr (by decide)⟩
      ⟨_, rfl, spaced_iff.mpr (by decide)⟩
      ⟨_, rfl, spaced_iff.mpr (by decide)⟩ rfl
  have hthree : Spaced ["13.4", "52.5", "8"] "13.4 52.5 8".toList := spaced_iff.mpr (by decide)
  refine ⟨hpoint.1, hpoint.2.1, by decide +kernel, hbox.1, hbox.2.1, by decide +kernel, ?_⟩
  exact ((hcounts _ _ hthree).1 (by decide)).1

end Harvest.Bearings
