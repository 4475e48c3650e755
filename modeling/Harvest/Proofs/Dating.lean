import Harvest.Proofs.Answer
import Harvest.Proofs.Blanks
import Harvest.Proofs.Citation
import Harvest.Proofs.Reading

/-!
Dates and their years. A date that is written down again, with a slash between the ends of a range,
is read as the same date. Its year is that of the text it was read from: no mark of a range can be
among the four digits that a text begins with, and what stands before the first mark begins as the
text does.
-/
namespace Harvest.Dating

open Text Crosswalk Blanks Xml Number

/-- A date as it is written, with a slash between the ends of a range. -/
def written : DateValue → String
  | .point value => value
  | .range start stop => start.getD "" ++ "/" ++ stop.getD ""

/-- The text begins with the year, in four ASCII digits. -/
def Begins (s : List Char) (y : Int) : Prop :=
  ∃ digits rest, s = digits ++ rest ∧ digits.length = 4 ∧ (∀ c ∈ digits, c.isDigit = true) ∧
    digitsValue digits = y

/-- After blanks or none, the text begins with the year. -/
def StartsWithYear (t : String) (y : Int) : Prop :=
  ∃ before rest, t.toList = before ++ rest ∧ before.all isBlank = true ∧ Begins rest y

/-! Four digits -/

theorem yearOfDigits_eq_some_iff {s : List Char} {y : Int} :
    yearOfDigits s = some y ↔ Begins s y := by
  constructor
  · intro h
    unfold yearOfDigits at h
    split at h
    · rename_i a b c d rest
      split at h
      · rename_i hdigits
        refine ⟨[a, b, c, d], rest, rfl, rfl, by simpa [and_assoc] using hdigits, ?_⟩
        rw [← Option.some.inj h]
        simp only [digitsValue, List.foldl_cons, List.foldl_nil]
        omega
      · cases h
    · cases h
  · rintro ⟨digits, rest, rfl, hlength, hdigits, rfl⟩
    obtain ⟨a, b, c, d, rfl⟩ : ∃ a b c d, digits = [a, b, c, d] :=
      List.length_eq_four.mp hlength
    have hall : (a.isDigit && b.isDigit && c.isDigit && d.isDigit) = true := by
      simpa [and_assoc] using hdigits
    simp only [List.cons_append, List.nil_append, yearOfDigits, hall, if_true, digitsValue,
      List.foldl_cons, List.foldl_nil, Option.some.injEq]
    omega

/-- Where a text goes on with anything but a digit, its first four digits are its own. -/
theorem begins_append {s t : List Char} (ht : ∀ c ∈ t.head?, c.isDigit = false) {y : Int} :
    Begins (s ++ t) y ↔ Begins s y := by
  constructor
  · rintro ⟨digits, rest, heq, hlength, hdigits, hy⟩
    have hprefix : digits <+: s ++ t := ⟨rest, heq.symm⟩
    rcases List.prefix_or_prefix_of_prefix hprefix (List.prefix_append s t) with hs | ⟨more, rfl⟩
    · obtain ⟨rest', rfl⟩ := hs
      exact ⟨digits, rest', rfl, hlength, hdigits, hy⟩
    · cases more with
      | nil =>
        rw [List.append_nil] at hlength hdigits hy
        exact ⟨s, [], (List.append_nil s).symm, hlength, hdigits, hy⟩
      | cons c more =>
        -- The text after `s` would begin with a digit.
        rw [List.append_assoc, List.append_cancel_left_eq] at heq
        have hnot : c.isDigit = false := ht c (by rw [heq]; rfl)
        have hc : c.isDigit = true := hdigits c (by simp)
        rw [hnot] at hc
        cases hc
  · rintro ⟨digits, rest, rfl, hdigits⟩
    exact ⟨digits, rest ++ t, List.append_assoc _ _ _, hdigits⟩

theorem yearOfDigits_append {t : List Char} (ht : ∀ c ∈ t.head?, c.isDigit = false)
    (s : List Char) : yearOfDigits (s ++ t) = yearOfDigits s := by
  ext y
  rw [yearOfDigits_eq_some_iff, yearOfDigits_eq_some_iff, begins_append ht]

theorem isDigit_of_blank {c : Char} (h : isBlank c = true) : c.isDigit = false := by
  rw [Bool.eq_false_iff]
  intro hdigit
  simp only [Char.isDigit, Bool.and_eq_true, decide_eq_true_eq] at hdigit
  have hlow : 48 ≤ c.toNat := hdigit.1
  have hhigh : c.toNat ≤ 57 := hdigit.2
  simp only [isBlank, Bool.or_eq_true, Bool.and_eq_true, decide_eq_true_eq, beq_iff_eq] at h
  omega

theorem yearOfDigits_trimEnd (s : List Char) : yearOfDigits (trimEnd s) = yearOfDigits s := by
  obtain ⟨rest, hblank, hrest⟩ := trimEnd_append_rest s
  have hhead : ∀ c ∈ rest.head?, c.isDigit = false := fun c hc =>
    isDigit_of_blank (List.all_eq_true.mp hblank c (List.mem_of_mem_head? hc))
  have happend := yearOfDigits_append hhead (trimEnd s)
  rw [hrest] at happend
  exact happend.symm

/-- A text that is trimmed begins with the same year as before. -/
theorem yearOfDigits_trimChars (s : List Char) :
    yearOfDigits (trimStart (trimChars s)) = yearOfDigits (trimStart s) := by
  rw [trimStart_trimChars, trimChars, yearOfDigits_trimEnd]

theorem yearOf_eq_some_iff {t : String} {y : Int} : yearOf t = some y ↔ StartsWithYear t y := by
  rw [yearOf, yearOfDigits_eq_some_iff]
  constructor
  · intro h
    exact ⟨t.toList.takeWhile isBlank, trimStart t.toList,
      (List.takeWhile_append_dropWhile).symm, List.all_takeWhile, h⟩
  · rintro ⟨before, rest, hchars, hblank, h⟩
    have hhead : ∀ c ∈ rest.head?, isBlank c = false := by
      obtain ⟨digits, more, rfl, hlength, hdigits, _⟩ := h
      intro c hc
      cases digits with
      | nil => cases hlength
      | cons d digits =>
        rw [List.cons_append, List.head?_cons, Option.mem_some_iff] at hc
        subst hc
        rw [Bool.eq_false_iff]
        intro hd
        have hdigit : d.isDigit = true := hdigits d List.mem_cons_self
        rw [isDigit_of_blank hd] at hdigit
        cases hdigit
    rw [hchars, trimStart_blank_append hblank, trimStart_of_head hhead]
    exact h

/-! Marks of a range -/

/-- A mark by itself is found at its first occurrence. -/
theorem cutAt_single {m : Char} {s left right : List Char} (h : cutAt [m] s = some (left, right)) :
    m ∉ left := by
  induction s generalizing left with
  | nil => cases h
  | cons c rest ih =>
    unfold cutAt at h
    split at h
    · obtain ⟨rfl, _⟩ := Prod.mk.inj (Option.some.inj h)
      exact List.not_mem_nil
    · rename_i hnot
      obtain ⟨⟨left', right'⟩, hcut, heq⟩ := Option.map_eq_some_iff.mp h
      obtain ⟨rfl, rfl⟩ := Prod.mk.inj heq
      have hc : m ≠ c := by
        rintro rfl
        exact hnot (by simp)
      exact List.not_mem_cons_of_ne_of_not_mem hc (ih hcut)

theorem cutAt_eq_none {m : Char} {s : List Char} (h : cutAt [m] s = none) : m ∉ s := by
  induction s with
  | nil => exact List.not_mem_nil
  | cons c rest ih =>
    unfold cutAt at h
    split at h
    · cases h
    · rename_i hnot
      have hc : m ≠ c := by
        rintro rfl
        exact hnot (by simp)
      exact List.not_mem_cons_of_ne_of_not_mem hc (ih (Option.map_eq_none_iff.mp h))

theorem cutAt_of_not_mem {m : Char} {left : List Char} (h : m ∉ left) (right : List Char) :
    cutAt [m] (left ++ m :: right) = some (left, right) := by
  induction left with
  | nil => simp [cutAt]
  | cons c left ih =>
    have hc : m ≠ c := List.ne_of_not_mem_cons h
    rw [List.cons_append, cutAt, if_neg (by simp [hc]), ih (List.not_mem_of_not_mem_cons h)]
    rfl

/-- A text is cut at one of the marks, and never behind a slash. -/
theorem cutRange_eq_some {s left right : List Char}
    (h : cutRange s rangeMarks = some (left, right)) :
    (∃ mark ∈ rangeMarks, s = left ++ mark ++ right) ∧ '/' ∉ left := by
  rcases Option.or_eq_some_iff.mp h with hslash | ⟨hnone, hhyphen⟩
  · exact ⟨⟨_, List.mem_cons_self, Reading.cutAt_eq hslash⟩, cutAt_single hslash⟩
  · have hcut : cutAt [' ', '-', ' '] s = some (left, right) := by
      simpa [cutRange] using hhyphen
    have hparts := Reading.cutAt_eq hcut
    refine ⟨⟨_, by decide, hparts⟩, fun hleft => cutAt_eq_none hnone ?_⟩
    rw [hparts]
    exact List.mem_append_left _ (List.mem_append_left _ hleft)

/-- Neither mark begins like a year, even without the blank in front of it. -/
theorem mark_head {mark : List Char} (hmark : mark ∈ rangeMarks) (right : List Char) :
    (∀ c ∈ (mark ++ right).head?, c.isDigit = false) ∧
      ∀ c ∈ (trimStart (mark ++ right)).head?, c.isDigit = false := by
  simp only [rangeMarks, List.mem_cons, List.not_mem_nil, or_false] at hmark
  rcases hmark with rfl | rfl
  · constructor
    · intro c hc
      cases hc
      rfl
    · intro c hc
      cases hc
      rfl
  · constructor
    · intro c hc
      cases hc
      rfl
    · intro c hc
      cases hc
      rfl

/-- What stands before a mark begins with the same year as the whole. -/
theorem yearOfDigits_cut {mark : List Char} (hmark : mark ∈ rangeMarks) (left right : List Char) :
    yearOfDigits (trimStart (left ++ mark ++ right)) = yearOfDigits (trimStart left) := by
  obtain ⟨hhead, htrimmed⟩ := mark_head hmark right
  rw [List.append_assoc, trimStart, List.dropWhile_append]
  split
  · next hblank =>
    have hnone := yearOfDigits_append htrimmed []
    rw [List.nil_append] at hnone
    rw [trimStart, List.isEmpty_iff.mp hblank]
    exact hnone
  · exact yearOfDigits_append hhead _

/-! Dates -/

theorem nonEmpty_getD (s : String) : (nonEmpty s).getD "" = s := by
  unfold nonEmpty
  split
  · next hempty => exact (String.isEmpty_iff.mp hempty).symm
  · rfl

theorem rangeEnd_year (s : List Char) : (rangeEnd s).bind yearOf = yearOfDigits (trimStart s) := by
  have htrim : yearOf (String.ofList (trimChars s)) = yearOfDigits (trimStart s) := by
    rw [yearOf, String.toList_ofList, yearOfDigits_trimChars]
  rw [← htrim, rangeEnd, nonEmpty]
  split
  · next hempty =>
    rw [String.isEmpty_iff.mp hempty]
    rfl
  · rfl

theorem dateYear_readDate (t : String) : dateYear (readDate t) = yearOf t := by
  have htrim : yearOf t = yearOfDigits (trimStart (trimChars t.toList)) := by
    rw [yearOfDigits_trimChars, yearOf]
  rw [htrim, readDate, dateOfChars]
  split
  · next left right hcut =>
    obtain ⟨⟨mark, hmark, hparts⟩, _⟩ := cutRange_eq_some hcut
    rw [hparts, yearOfDigits_cut hmark]
    exact rangeEnd_year left
  · rw [dateYear, yearOf, String.toList_ofList]

theorem rangeEnd_trimChars (s : List Char) : rangeEnd (trimChars s) = rangeEnd s := by
  rw [rangeEnd, rangeEnd, trimChars_trimChars]

theorem rangeEnd_getD (s : List Char) : ((rangeEnd s).getD "").toList = trimChars s := by
  rw [rangeEnd, nonEmpty_getD, String.toList_ofList]

theorem mem_of_mem_trimChars {s : List Char} {c : Char} (h : c ∈ trimChars s) : c ∈ s := by
  obtain ⟨rest, _, hrest⟩ := trimEnd_append_rest (trimStart s)
  have hstart : c ∈ trimStart s := by
    rw [← hrest]
    exact List.mem_append_left _ h
  exact (List.dropWhile_sublist _).subset hstart

/-- A slash between trimmed texts leaves nothing to trim. -/
theorem trimChars_slash (left right : List Char) :
    trimChars (trimChars left ++ '/' :: trimChars right) =
      trimChars left ++ '/' :: trimChars right := by
  have hhead : ∀ c ∈ (trimChars left ++ '/' :: trimChars right).head?, isBlank c = false := by
    intro c hc
    rw [List.head?_append, Option.mem_def, Option.or_eq_some_iff] at hc
    rcases hc with hc | ⟨_, hc⟩
    · rw [← trimStart_trimChars] at hc
      exact trimStart_head? _ c hc
    · cases hc
      decide
  rw [trimChars, trimStart_of_head hhead, trimEnd_append_cons _ (by decide), trimEnd_trimChars]

/-- The ends of a range are read back from what is written. -/
theorem readDate_range {left : List Char} (hleft : '/' ∉ left) (right : List Char) :
    readDate (written (.range (rangeEnd left) (rangeEnd right))) =
      .range (rangeEnd left) (rangeEnd right) := by
  have hchars : (written (.range (rangeEnd left) (rangeEnd right))).toList =
      trimChars left ++ '/' :: trimChars right := by
    rw [written, String.toList_append, String.toList_append, rangeEnd_getD, rangeEnd_getD,
      List.append_assoc]
    rfl
  have hcut : cutRange (trimChars left ++ '/' :: trimChars right) rangeMarks =
      some (trimChars left, trimChars right) := by
    rw [rangeMarks, cutRange, cutAt_of_not_mem fun h => hleft (mem_of_mem_trimChars h)]
    rfl
  rw [readDate, hchars, trimChars_slash, dateOfChars, hcut]
  dsimp only
  rw [rangeEnd_trimChars, rangeEnd_trimChars]

theorem readDate_written (t : String) : readDate (written (readDate t)) = readDate t := by
  cases hcut : cutRange (trimChars t.toList) rangeMarks with
  | none =>
    have hpoint : readDate t = .point (String.ofList (trimChars t.toList)) := by
      rw [readDate, dateOfChars, hcut]
    rw [hpoint, written, ← hpoint, readDate, readDate, String.toList_ofList, trimChars_trimChars]
  | some parts =>
    obtain ⟨left, right⟩ := parts
    have hrange : readDate t = .range (rangeEnd left) (rangeEnd right) := by
      rw [readDate, dateOfChars, hcut]
    rw [hrange]
    exact readDate_range (cutRange_eq_some hcut).2 right

theorem issuedYear_of_readDate {dates : List DocumentDate} {date : DocumentDate} {t : String}
    (hissued : dates.find? (fun d => d.dateType == .issued) = some date)
    (hdate : date.date = readDate t) : issuedYear dates = yearOf t := by
  rw [issuedYear, hissued, Option.bind_some, hdate, dateYear_readDate]

/-! The dates of a document -/

/-- The year of publication that the metadata state. -/
def statedYear (schema : Schema) (metadata : Element) : Option Int :=
  match schema with
  | .dataCite2 | .dataCite3 | .dataCite4 =>
    ((DataCite.resourceOf metadata).childText? "publicationYear").bind yearOf
  | .dublinCore | .iso19139 => none

/-- The year of the metadata themselves, where it may stand in for that of publication. -/
def ownYear (schema : Schema) (metadata : Element) : Option Int :=
  match schema with
  | .iso19139 => (metadata.childText? "dateStamp").bind yearOf
  | .dataCite2 | .dataCite3 | .dataCite4 | .dublinCore => none

/-- All dates were read from texts. -/
def Read (dates : List DocumentDate) : Prop := ∀ d ∈ dates, ∃ t, d.date = readDate t

/-- A document whose dates were read from texts, and whose year is the one that is stated, or else
that of issue, or else that of the metadata. -/
structure Dated (schema : Schema) (metadata : Element) (doc : Document) : Prop where
  read : Read doc.dates
  year : doc.publicationYear =
    ((statedYear schema metadata).or (issuedYear doc.dates)).or (ownYear schema metadata)

theorem read_filterMap {α : Type} {read : α → Option DocumentDate}
    (h : ∀ a d, read a = some d → ∃ t, d.date = readDate t) (items : List α) :
    Read (items.filterMap read) := by
  intro d hd
  obtain ⟨a, _, ha⟩ := List.mem_filterMap.mp hd
  exact h a d ha

theorem read_dateOf (e : Element) (d : DocumentDate) (h : DataCite.dateOf e = some d) :
    ∃ t, d.date = readDate t := by
  obtain ⟨t, _, rfl⟩ := Option.map_eq_some_iff.mp h
  exact ⟨t, rfl⟩

theorem read_isoDateOf (e : Element) (d : DocumentDate) (h : Iso19139.dateOf e = some d) :
    ∃ t, d.date = readDate t := by
  obtain ⟨_, _, h⟩ := Option.bind_eq_some_iff.mp h
  obtain ⟨t, _, h⟩ := Option.bind_eq_some_iff.mp h
  cases h
  exact ⟨t, rfl⟩

theorem read_datesOf (values : List String) : Read (DublinCore.datesOf values) := by
  intro d hd
  cases values with
  | nil => cases hd
  | cons issued others =>
    rcases List.mem_cons.mp hd with rfl | hd
    · exact ⟨issued, rfl⟩
    · obtain ⟨value, _, rfl⟩ := List.mem_map.mp hd
      exact ⟨value, rfl⟩

/-- A citation has dates of its own, and takes the place of those before. -/
theorem mapIdentification_dates (identification : Element) {d : Document} (hd : Read d.dates) :
    Read (Iso19139.mapIdentification identification d).dates ∧
      (Iso19139.mapIdentification identification d).publicationYear = d.publicationYear := by
  unfold Iso19139.mapIdentification
  cases identification.descendant? "CI_Citation" with
  | none => exact ⟨hd, rfl⟩
  | some citation =>
    dsimp only
    rw [Iso19139.mapCitation]
    obtain ⟨_, _, _, hparties⟩ := Citation.parties_eq (Iso19139.partiesOf citation) _
    rw [hparties]
    exact ⟨read_filterMap read_isoDateOf _, rfl⟩

theorem dated_iso19139 (viewUrl : Option String) (metadata : Element) {d : Document}
    (hd : Read d.dates) (hnone : d.publicationYear = none) :
    Dated .iso19139 metadata (Iso19139.map viewUrl metadata d) := by
  have hfinished (identified : Document) (hread : Read identified.dates)
      (hyear : identified.publicationYear = none) :
      Dated .iso19139 metadata (addLinks viewUrl <| Iso19139.addDataLink metadata <|
        Iso19139.fillYearOfMetadata metadata <| fillYear <|
        Iso19139.mapDescription metadata <| Iso19139.addFileIdentifier metadata identified) := by
    obtain ⟨_, _, hfile⟩ := Citation.addFileIdentifier_eq metadata identified
    rw [hfile]
    refine ⟨hread, ?_⟩
    change (identified.publicationYear.or _).or _ = _
    rw [hyear]
    rfl
  unfold Iso19139.map
  cases (metadata.child? "identificationInfo").bind fun i => i.children.head? with
  | none => exact hfinished d hd hnone
  | some identification =>
    obtain ⟨hread, hyear⟩ := mapIdentification_dates identification hd
    exact hfinished _ hread (hyear.trans hnone)

theorem dated_map (schema : Schema) (viewUrl : Option String) (metadata : Element) {d : Document}
    (hd : Read d.dates) (hnone : d.publicationYear = none) :
    Dated schema metadata (schema.map viewUrl metadata d) := by
  cases schema with
  | dataCite2 => exact ⟨read_filterMap read_dateOf _, (Option.or_none).symm⟩
  | dataCite3 => exact ⟨read_filterMap read_dateOf _, (Option.or_none).symm⟩
  | dataCite4 => exact ⟨read_filterMap read_dateOf _, (Option.or_none).symm⟩
  | dublinCore =>
    refine ⟨read_datesOf _, ?_⟩
    change d.publicationYear.or _ = _
    rw [hnone, statedYear, ownYear, Option.or_none]
    rfl
  | iso19139 => exact dated_iso19139 viewUrl metadata hd hnone

/-- The issue date of a document tells its year, unless the metadata state it. -/
theorem year_of_document {w : Crosswalk} {r : Record} {doc : Document} {date : DocumentDate}
    (hdoc : w.transform r = .ok (some doc))
    (hissued : doc.dates.find? (fun d => d.dateType == .issued) = some date) :
    ∃ schema metadata t, w.schemaFor r = .ok schema ∧ r.metadata = some metadata ∧
      date.date = readDate t ∧
      doc.publicationYear =
        ((statedYear schema metadata).or (yearOf t)).or (ownYear schema metadata) := by
  cases hdeleted : r.deleted with
  | true =>
    -- The only date of a tombstone is that of the deletion.
    obtain ⟨_, rfl⟩ := Answer.tombstone_of_document w hdeleted hdoc
    have hnone : (Document.tombstone r.identifier w.context.repository r.datestamp).dates.find?
        (fun d => d.dateType == .issued) = none := by
      rw [Document.tombstone]
      cases r.datestamp with
      | none => rfl
      | some datestamp => rfl
    rw [hnone] at hissued
    cases hissued
  | false =>
    obtain ⟨_, metadata, schema, hmetadata, hschema, rfl⟩ :=
      Answer.mapped_of_document w hdeleted hdoc
    have hdated : Dated schema metadata _ := dated_map schema w.context.viewUrl metadata
      (d := outline w.context r.header) (fun d hd => absurd hd List.not_mem_nil) rfl
    obtain ⟨t, ht⟩ := hdated.read date (List.mem_of_find?_eq_some hissued)
    refine ⟨schema, metadata, t, hschema, hmetadata, ht, ?_⟩
    rw [hdated.year, issuedYear_of_readDate hissued ht]

/-- The year of a date is that of the text it was read from, and the date is read back from what is
written of it. So an issue date gives the year that its text begins with, be it a range or not, and
the documents of records take over this year unless the metadata state another. -/
theorem year_and_text_kept :
    (∀ t : String, dateYear (readDate t) = yearOf t ∧
      readDate (written (readDate t)) = readDate t ∧
      (∀ y, yearOf t = some y ↔ StartsWithYear t y) ∧
      ∀ (dates : List DocumentDate) (date : DocumentDate),
        dates.find? (fun d => d.dateType == .issued) = some date → date.date = readDate t →
        issuedYear dates = yearOf t) ∧
    ∀ (w : Crosswalk) (r : Record) (doc : Document) (date : DocumentDate),
      w.transform r = .ok (some doc) →
      doc.dates.find? (fun d => d.dateType == .issued) = some date →
      ∃ schema metadata t, w.schemaFor r = .ok schema ∧ r.metadata = some metadata ∧
        date.date = readDate t ∧
        doc.publicationYear =
          ((statedYear schema metadata).or (yearOf t)).or (ownYear schema metadata) :=
  ⟨fun t => ⟨dateYear_readDate t, readDate_written t, fun _ => yearOf_eq_some_iff,
    fun _ _ hissued hdate => issuedYear_of_readDate hissued hdate⟩,
    fun _ _ _ _ hdoc hissued => year_of_document hdoc hissued⟩

/-! A record that was issued over some years -/

def dublin : Crosswalk := { mapping := .bound .dublinCore, context := { repository := "R" } }

/-- The range is parted at its slash, although a hyphen between blanks comes first. -/
def serial : Record where
  header := { identifier := "a" }
  metadata := some (.mk "dc" none []
    [.element (.mk "date" none [] [.text " 1999 - 2000/2001"])])

theorem serial_dated :
    readDate " 1999 - 2000/2001" = .range (some "1999 - 2000") (some "2001") ∧
      StartsWithYear " 1999 - 2000/2001" 1999 ∧
      ∃ doc, dublin.transform serial = .ok (some doc) ∧ doc.publicationYear = some 1999 := by
  obtain ⟨htexts, hdocuments⟩ := year_and_text_kept
  obtain ⟨_, _, hstarts, _⟩ := htexts " 1999 - 2000/2001"
  have hread : readDate " 1999 - 2000/2001" = .range (some "1999 - 2000") (some "2001") := by decide
  obtain ⟨doc, date, hdoc, hissued, hdate⟩ : ∃ doc date, dublin.transform serial = .ok (some doc) ∧
      doc.dates.find? (fun d => d.dateType == .issued) = some date ∧
      date.date = readDate " 1999 - 2000/2001" := ⟨_, _, rfl, rfl, by decide⟩
  obtain ⟨schema, metadata, t, hschema, _, ht, hdocYear⟩ :=
    hdocuments dublin serial doc date hdoc hissued
  have hsame : yearOf t = some 1999 := by
    rw [← (htexts t).1, ← ht, hdate]
    decide
  refine ⟨hread, (hstarts 1999).mp (by decide), doc, hdoc, ?_⟩
  cases hschema
  rw [hdocYear, hsame]
  rfl

end Harvest.Dating
