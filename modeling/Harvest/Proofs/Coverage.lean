import Harvest.Proofs.Pagination
import Mathlib.Data.Set.Insert
import Mathlib.Data.String.Basic

/-!
A repository that keeps its records in the order of their datestamps, and loses its place in a list
now and then: any request with a token may bring no records. Its records are all handed out all the
same. What carries the proof is how the records given stand to the part of the list still to come:
a record outside that part has been given, and no record given is later than any record of it.
Both survive a page and a new start at the last datestamp given.
-/
namespace Harvest.Coverage

open Fetching Observation Pagination

variable {σ : Type} {q : ListQuery}

/-- The datestamp of a record, which is empty if it has none. -/
def stamp (r : Record) : String := r.datestamp.getD ""

/-- What is left of a list where its next token is known. Without a token that is nothing. -/
def Owed (owes : String → List Record → Prop) (token? : Option String) (rest : List Record) :
    Prop :=
  match token? with
  | none => rest = []
  | some token => owes token rest

/-- A page begins a list: its records come first in it, and its token is owed the others. Only an
empty list begins with a page without records. -/
def Begins (owes : String → List Record → Prop) (page : Page) (list : List Record) : Prop :=
  ∃ rest, list = page.records ++ rest ∧ (page.records = [] → list = []) ∧
    Owed owes page.nextToken? rest

/-- A request is answered with the first page of a list, or with no records whatever the reason. -/
def Serves (source : Source σ) (owes : σ → String → List Record → Prop) (url : String) (state : σ)
    (list : List Record) : Prop :=
  (pageAt source url state).1.records = [] ∨
    Begins (owes (source url state).state) (pageAt source url state).1 list

/-- A repository with the records that match a query. Which pages a list is divided into, which
tokens are given and which of them fail may depend on all that was asked before. -/
structure Archive (q : ListQuery) (σ : Type) where
  source : Source σ
  quiet : Quiet source
  records : List Record
  distinct : records.Nodup
  stamped : ∀ r ∈ records, stamp r ≠ ""
  sorted : records.Pairwise fun r r' => stamp r ≤ stamp r'
  /-- In a state, the rest of a list that is owed to a token. -/
  owes : σ → String → List Record → Prop
  lists : ∀ state,
    Begins (owes (source q.url state).state) (pageAt source q.url state).1 records
  listsSince : ∀ r ∈ records, ∀ state,
    let url := q.urlSince (some (stamp r))
    Begins (owes (source url state).state) (pageAt source url state).1
      (records.filter (stamp r ≤ stamp ·))
  resumes : ∀ state token rest, owes state token rest →
    Serves source owes (q.resumptionUrl token) state rest

/-- How the records given stand to the part `rest` of a list still to come, when the list has been
started anew at the datestamps `anchors`. -/
structure Covers (A : Archive q σ) (given rest : List Record) (anchors : Set String) : Prop where
  part : rest.Sublist A.records
  covered : ∀ r ∈ A.records, r ∈ rest ∨ r ∈ given
  known : ∀ r ∈ given, r ∈ A.records
  sorted : given.Pairwise fun r r' => stamp r ≤ stamp r'
  ahead : ∀ r ∈ given, ∀ r' ∈ rest, stamp r ≤ stamp r'
  twice : ∀ r, [r, r].Sublist given → stamp r ∈ anchors
  again : ∀ r ∈ given, r ∈ rest → stamp r ∈ anchors

/-- A pair of equal records in two lists lies in one of them or has one record in each. -/
theorem pair_sublist_append {r : Record} {l l' : List Record} (h : [r, r].Sublist (l ++ l')) :
    [r, r].Sublist l ∨ [r, r].Sublist l' ∨ (r ∈ l ∧ r ∈ l') := by
  obtain ⟨a, b, hab, ha, hb⟩ := List.sublist_append_iff.mp h
  rcases a with _ | ⟨x, _ | ⟨y, a⟩⟩
  · rw [List.nil_append] at hab
    exact Or.inr (Or.inl (hab ▸ hb))
  · simp only [List.cons_append, List.nil_append, List.cons.injEq] at hab
    obtain ⟨rfl, rfl⟩ := hab
    exact Or.inr (Or.inr ⟨ha.subset List.mem_cons_self, hb.subset List.mem_cons_self⟩)
  · simp only [List.cons_append, List.cons.injEq, List.nil_eq, List.append_eq_nil_iff] at hab
    obtain ⟨rfl, rfl, rfl, rfl⟩ := hab
    exact Or.inl ha

namespace Covers

variable {A : Archive q σ} {given rest : List Record} {anchors : Set String}

/-- The first records of the part to come are given. -/
theorem page {records rest' : List Record} (h : Covers A given rest anchors)
    (hrest : rest = records ++ rest') : Covers A (given ++ records) rest' anchors := by
  subst hrest
  have hsorted := List.pairwise_append.mp (A.sorted.sublist h.part)
  have hdistinct := List.nodup_append.mp (A.distinct.sublist h.part)
  refine {
    part := (List.sublist_append_right records rest').trans h.part
    covered := ?_
    known := ?_
    sorted := ?_
    ahead := ?_
    twice := ?_
    again := ?_ }
  · intro r hr
    rcases h.covered r hr with hrest | hgiven
    · rcases List.mem_append.mp hrest with hrecords | hrest'
      · exact Or.inr (List.mem_append_right _ hrecords)
      · exact Or.inl hrest'
    · exact Or.inr (List.mem_append_left _ hgiven)
  · intro r hr
    rcases List.mem_append.mp hr with hgiven | hrecords
    · exact h.known r hgiven
    · exact h.part.subset (List.mem_append_left _ hrecords)
  · exact List.pairwise_append.mpr ⟨h.sorted, hsorted.1, fun r hr r' hr' =>
      h.ahead r hr r' (List.mem_append_left _ hr')⟩
  · intro r hr r' hr'
    rcases List.mem_append.mp hr with hgiven | hrecords
    · exact h.ahead r hgiven r' (List.mem_append_right _ hr')
    · exact hsorted.2.2 r hrecords r' hr'
  · intro r hr
    rcases pair_sublist_append hr with hgiven | hrecords | ⟨hgiven, hrecords⟩
    · exact h.twice r hgiven
    · exact absurd (hdistinct.1.sublist hrecords) (by simp)
    · exact h.again r hgiven (List.mem_append_left _ hrecords)
  · intro r hr hr'
    rcases List.mem_append.mp hr with hgiven | hrecords
    · exact h.again r hgiven (List.mem_append_right _ hr')
    · exact absurd rfl (hdistinct.2.2 r hrecords r hr')

theorem mono (h : Covers A given rest anchors) {anchors' : Set String}
    (hmore : anchors ⊆ anchors') : Covers A given rest anchors' where
  part := h.part
  covered := h.covered
  known := h.known
  sorted := h.sorted
  ahead := h.ahead
  twice := fun r hr => hmore (h.twice r hr)
  again := fun r hr hr' => hmore (h.again r hr hr')

/-- The anchor is the datestamp of a record given, and no record given is later. -/
theorem exists_latest (h : Covers A given rest anchors) {datestamp : String}
    (hanchor : anchor given = some datestamp) :
    ∃ r ∈ given, stamp r = datestamp ∧ ∀ r' ∈ given, stamp r' ≤ datestamp := by
  rcases List.eq_nil_or_concat' given with rfl | ⟨before, r, rfl⟩
  · simp [anchor] at hanchor
  · have hr : r ∈ before ++ [r] := by simp
    have hstamp : r.datestamp = some (stamp r) := by
      have hne := A.stamped r (h.known r hr)
      unfold stamp at hne ⊢
      cases hd : r.datestamp with
      | none => simp [hd] at hne
      | some d => rfl
    have hlast : stamp r = datestamp := by
      rw [anchor_append, hstamp] at hanchor
      exact Option.some.inj hanchor
    refine ⟨r, hr, hlast, ?_⟩
    intro r' hr'
    rcases List.mem_append.mp hr' with hbefore | hself
    · exact hlast ▸ (List.pairwise_append.mp h.sorted).2.2 r' hbefore r (by simp)
    · rw [List.mem_singleton.mp hself, hlast]

/-- A new start at the last datestamp given. Only records with this datestamp can come again. -/
theorem restart (h : Covers A given rest anchors) {datestamp : String}
    (hanchor : anchor given = some datestamp) :
    Covers A given (A.records.filter (datestamp ≤ stamp ·)) (insert datestamp anchors) := by
  obtain ⟨latest, hlatest, rfl, hle⟩ := h.exists_latest hanchor
  refine {
    part := List.filter_sublist
    covered := ?_
    known := h.known
    sorted := h.sorted
    ahead := ?_
    twice := fun r hr => Set.mem_insert_of_mem _ (h.twice r hr)
    again := ?_ }
  · intro r hr
    by_cases hstamp : stamp latest ≤ stamp r
    · exact Or.inl (List.mem_filter.mpr ⟨hr, by simpa using hstamp⟩)
    · rcases h.covered r hr with hrest | hgiven
      · exact absurd (h.ahead latest hlatest r hrest) hstamp
      · exact Or.inr hgiven
  · intro r hr r' hr'
    have hstamp : stamp latest ≤ stamp r' := by simpa using (List.mem_filter.mp hr').2
    exact (hle r hr).trans hstamp
  · intro r hr hr'
    have hstamp : stamp latest ≤ stamp r := by simpa using (List.mem_filter.mp hr').2
    exact Set.mem_insert_iff.mpr (Or.inl (le_antisymm (hle r hr) hstamp))

end Covers

/-- The list of these legs starts anew at a datestamp: one of them took a second request, since the
last datestamp given before it. -/
def Restarts (q : ListQuery) (given : List Record) (legs : List Leg) (datestamp : String) : Prop :=
  ∃ before leg after url handed, legs = before ++ leg :: after ∧
    leg.urls = [url, q.urlSince (some datestamp)] ∧ answers before = handed.map .ok ∧
    anchor (given ++ handed) = some datestamp

theorem Restarts.cons {given records : List Record} {leg : Leg} {legs : List Leg}
    {datestamp : String} (h : Restarts q (given ++ records) legs datestamp)
    (hleg : leg.answers = records.map .ok) : Restarts q given (leg :: legs) datestamp := by
  obtain ⟨before, leg', after, url, handed, rfl, hurls, hbefore, hanchor⟩ := h
  refine ⟨leg :: before, leg', after, url, records ++ handed, rfl, hurls, ?_, ?_⟩
  · simp only [answers, List.flatMap_cons, List.map_append] at hbefore ⊢
    rw [hleg, hbefore]
  · rw [← List.append_assoc]
    exact hanchor

/-- A leg that finds a page takes the records given and those to come from one point of the list to
a later one. -/
theorem covers_find (A : Archive q σ) {given rest : List Record} {anchors : Set String}
    {state : σ} {url : String} {page : Page} (h : Covers A given rest anchors)
    (hserves : Serves A.source A.owes url state rest)
    (hpage : (find q A.source given url state).outcome = .ok page) :
    let found := find q A.source given url state
    ∃ rest', Owed (A.owes found.state) page.nextToken? rest' ∧
      Covers A (given ++ page.records) rest' (anchors ∪
        {datestamp | anchor given = some datestamp ∧
          found.urls = [url, q.urlSince (some datestamp)]}) := by
  intro found
  rcases find_cases q A.source given url state with
    ⟨hrecords, heq⟩ | ⟨_, _, heq⟩ | ⟨_, datestamp, hanchor, ⟨_, heq⟩ | ⟨_, heq⟩⟩
  · rw [heq] at hpage
    obtain rfl := Except.ok.inj hpage
    rcases hserves with hnone | ⟨rest', hrest, _, howed'⟩
    · exact absurd hnone hrecords
    · refine ⟨rest', ?_, (h.page hrest).mono Set.subset_union_left⟩
      simpa [found, heq] using howed'
  · simp [heq] at hpage
  · rw [heq] at hpage
    obtain rfl := Except.ok.inj hpage
    obtain ⟨latest, hlatest, rfl, _⟩ := h.exists_latest hanchor
    obtain ⟨rest', hrest, _, howed'⟩ := A.listsSince latest (h.known latest hlatest)
      (A.source url state).state
    refine ⟨rest', by simpa [found, heq] using howed', ((h.restart hanchor).page hrest).mono ?_⟩
    intro d hd
    rcases Set.mem_insert_iff.mp hd with rfl | hd
    · exact Or.inr ⟨hanchor, by simp [found, heq]⟩
    · exact Or.inl hd
  · simp [heq] at hpage

theorem ok_injective : Function.Injective (Except.ok : Record → Except Error Record) :=
  fun _ _ h => Except.ok.inj h

/-- What a list of legs gives begins with the records of its first page. -/
theorem exists_later {leg : Leg} {legs : List Leg} {records yielded : List Record}
    (hleg : leg.answers = records.map .ok) (h : answers (leg :: legs) = yielded.map .ok) :
    ∃ later, yielded = records ++ later ∧ answers legs = later.map .ok := by
  simp only [answers, List.flatMap_cons, hleg] at h
  obtain ⟨first, later, rfl, hfirst, hlater⟩ := List.map_eq_append_iff.mp h.symm
  exact ⟨later, by rw [ok_injective.list_map hfirst], hlater.symm⟩

/-- A list that comes to its end without an error has given everything there was to come. The
induction is on the legs: one leg keeps `Covers`, and the last one leaves nothing to come. -/
theorem covers_listing (A : Archive q σ) (limit : ℕ) (given rest yielded : List Record)
    (anchors : Set String) (url : String) (state : σ) (hcovers : Covers A given rest anchors)
    (hserves : Serves A.source A.owes url state rest)
    (hanswers : answers (listing q A.source limit given url state) = yielded.map .ok)
    (hlimit : yielded.length < limit) :
    Covers A (given ++ yielded) []
      (anchors ∪ {d | Restarts q given (listing q A.source limit given url state) d}) := by
  induction limit generalizing given rest yielded anchors url state with
  | zero => omega
  | succ limit ih =>
    cases hout : (find q A.source given url state).outcome with
    | error e =>
      exfalso
      rw [listing_error _ _ _ _ _ _ _ hout] at hanswers
      cases yielded with
      | nil => simp [answers] at hanswers
      | cons r yielded => simp [answers] at hanswers
    | ok page =>
      obtain ⟨rest', howed, hcovers'⟩ := covers_find A hcovers hserves hout
      have hrecords := List.length_pos_iff.mpr (find_outcome_ok _ _ _ _ _ page hout)
      rw [listing_ok _ _ _ _ _ _ _ hout] at hanswers ⊢
      obtain ⟨later, rfl, hlater⟩ := exists_later rfl hanswers
      have hhere (legs : List Leg) (answers : List (Except Error Record)) (d : String)
          (hd : anchor given = some d ∧ (find q A.source given url state).urls =
            [url, q.urlSince (some d)]) :
          Restarts q given (⟨(find q A.source given url state).urls, answers⟩ :: legs) d :=
        ⟨[], _, legs, url, [], rfl, hd.2, rfl, by rw [List.append_nil]; exact hd.1⟩
      cases htoken : page.nextToken? with
      | none =>
        have hlater' : later = [] := by
          simpa [htoken, onward, answers] using hlater.symm
        have hrest : rest' = [] := by
          simpa [htoken, Owed] using howed
        subst hlater' hrest
        rw [List.append_nil]
        refine hcovers'.mono ?_
        rintro d (hd | hd)
        · exact Or.inl hd
        · exact Or.inr (hhere _ _ d hd)
      | some token =>
        simp only [htoken, Option.map_some, onward] at hlater ⊢
        rw [List.length_append] at hlimit
        have hend := ih (given ++ page.records) rest' later _ (q.resumptionUrl token)
          (find q A.source given url state).state hcovers'
          (A.resumes _ token rest' (by simpa [htoken, Owed] using howed)) hlater (by omega)
        rw [List.append_assoc] at hend
        refine hend.mono ?_
        rintro d ((hd | hd) | hd)
        · exact Or.inl hd
        · exact Or.inr (hhere _ _ d hd)
        · exact Or.inr (hd.cons rfl)

/-- At the start everything is to come. -/
theorem covers_start (A : Archive q σ) : Covers A [] A.records ∅ where
  part := List.Sublist.refl _
  covered := fun _ hr => Or.inl hr
  known := fun _ hr => absurd hr List.not_mem_nil
  sorted := List.Pairwise.nil
  ahead := fun _ hr => absurd hr List.not_mem_nil
  twice := fun _ hr => absurd hr (by simp)
  again := fun _ hr => absurd hr List.not_mem_nil

/-- The call in which a list starts anew makes two requests, the second one since the last datestamp
handed out. -/
theorem requested_restart (source : Source σ) (hquiet : Quiet source) (state : σ) (n : ℕ)
    {datestamp : String} {given : List Record}
    (hgiven : answers (listing q source n [] q.url state) = given.map .ok)
    (hended : given.length < n)
    (hrestart : Restarts q [] (listing q source n [] q.url state) datestamp) :
    ∃ k < n, ∃ url, anchor (given.take k) = some datestamp ∧
      requested source (k + 1) (Cursor.ofQuery q) ⟨state, false⟩ =
        requested source k (Cursor.ofQuery q) ⟨state, false⟩ ++
          [url, q.urlSince (some datestamp)] := by
  have hne := answers_ne_nil q source n [] q.url state
  have hrequested := fun k hk => (drain_eq_listing q source hquiet state k n hk).2
  obtain ⟨before, leg, after, url, handed, hlegs, hurls, hbefore, hanchor⟩ := hrestart
  rw [hlegs] at hne hgiven hrequested
  have hcount : (answers before).length = handed.length := by
    rw [hbefore, List.length_map]
  have hnonempty : ∀ leg' ∈ before, leg'.answers ≠ [] :=
    fun leg' hleg' => hne leg' (List.mem_append_left _ hleg')
  have hsplit : answers (before ++ leg :: after) =
      handed.map .ok ++ answers (leg :: after) := by
    rw [← hbefore, answers, List.flatMap_append]
    rfl
  have hhanded : given.take handed.length = handed := by
    rw [hsplit] at hgiven
    obtain ⟨first, later, rfl, hfirst, _⟩ := List.map_eq_append_iff.mp hgiven.symm
    obtain rfl := ok_injective.list_map hfirst
    exact List.take_left
  have hleg := List.length_pos_iff.mpr (hne leg (by simp))
  have hle : handed.length ≤ given.length := by
    rw [← hhanded, List.length_take]
    exact Nat.min_le_right _ _
  have hurlsFor (m : ℕ) := urlsFor_append before (leg :: after) m hnonempty
  rw [hcount] at hurlsFor
  refine ⟨handed.length, by omega, url, ?_, ?_⟩
  · rw [hhanded]
    exact hanchor
  · rw [hrequested (handed.length + 1) (by omega), hrequested handed.length (by omega),
      hurlsFor 1, ← Nat.add_zero handed.length, hurlsFor 0]
    simp [urlsFor, hurls, show 1 - leg.answers.length = 0 by omega]

/-- A run that ends without an error has given every record, in the order of the datestamps. A
record came twice only if its datestamp was the last one handed out when some call asked for a page
in vain and went on with what had changed since. -/
theorem every_record_given (q : ListQuery) (A : Archive q σ) (state : σ) (n : ℕ)
    (given : List Record)
    (hrun : ((Cursor.ofQuery q).drain A.source n ⟨state, false⟩).1 = given.map .ok)
    (hended : given.length < n) :
    (∀ r ∈ A.records, r ∈ given) ∧
      given.Pairwise (fun r r' => stamp r ≤ stamp r') ∧
      ∀ r, [r, r].Sublist given → ∃ k < n, ∃ url, anchor (given.take k) = some (stamp r) ∧
        requested A.source (k + 1) (Cursor.ofQuery q) ⟨state, false⟩ =
          requested A.source k (Cursor.ofQuery q) ⟨state, false⟩ ++
            [url, q.urlSince (some (stamp r))] := by
  have hanswers : answers (listing q A.source n [] q.url state) = given.map .ok := by
    have htake := (drain_eq_listing q A.source A.quiet state n n (Nat.le_refl n)).1
    rw [hrun] at htake
    have hlength := congrArg List.length htake
    rw [List.length_map, List.length_take] at hlength
    rw [htake, List.take_of_length_le (by omega)]
  have hcovers := covers_listing A n [] A.records given ∅ q.url state (covers_start A)
    (Or.inr (A.lists state)) hanswers hended
  refine ⟨?_, hcovers.sorted, ?_⟩
  · intro r hr
    rcases hcovers.covered r hr with hrest | hgiven
    · exact absurd hrest List.not_mem_nil
    · exact hgiven
  · intro r hr
    rcases hcovers.twice r hr with hnone | hrestart
    · exact absurd hnone (Set.notMem_empty _)
    · exact requested_restart A.source A.quiet state n hanswers hended hrestart

/-! The records of a list whose token is always refused -/

def lateBody : String :=
  "<r><ListRecords><record><header><identifier>b</identifier><datestamp>2</datestamp></header>" ++
    "</record></ListRecords></r>"

def latePage : Page := { records := [late] }

set_option maxRecDepth 20000 in
theorem ofAnswer_lateBody : Page.ofAnswer (.ok lateBody) = (latePage, .noRecords) := by
  rfl

def anyQuery : ListQuery := { hostUrl := "h", metadataPrefix := "p" }

/-- The whole list comes in two pages, and the token of the first one does not work. -/
def refusing : Source Unit := .fixed fun url =>
  if url = anyQuery.url then .ok earlyBody
  else if url = anyQuery.urlSince (some "1") then .ok bothBody
  else if url = anyQuery.urlSince (some "2") then .ok lateBody
  else .error .malformedXml

theorem pageAt_first : (pageAt refusing anyQuery.url ()).1 = earlyPage :=
  congrArg Prod.fst ofAnswer_earlyBody

theorem pageAt_token : (pageAt refusing (anyQuery.resumptionUrl "t") ()).1.records = [] := by
  decide

theorem pageAt_sinceEarly : (pageAt refusing (anyQuery.urlSince (some "1")) ()).1 = bothPage := by
  have hfirst : anyQuery.urlSince (some "1") ≠ anyQuery.url := by decide
  simp only [pageAt, refusing, Source.fixed, if_neg hfirst, if_true, ofAnswer_bothBody]

theorem pageAt_sinceLate : (pageAt refusing (anyQuery.urlSince (some "2")) ()).1 = latePage := by
  have hfirst : anyQuery.urlSince (some "2") ≠ anyQuery.url := by decide
  have hearly : anyQuery.urlSince (some "2") ≠ anyQuery.urlSince (some "1") := by decide
  simp only [pageAt, refusing, Source.fixed, if_neg hfirst, if_neg hearly, if_true,
    ofAnswer_lateBody]

def refusingArchive : Archive anyQuery Unit where
  source := refusing
  quiet := fun _ _ => rfl
  records := [early, late]
  distinct := by simp [early, late]
  stamped := by decide
  sorted := by decide
  owes := fun _ token rest => token = "t" ∧ rest = [late]
  lists := by
    intro state
    rw [pageAt_first]
    exact ⟨[late], rfl, by decide, rfl, rfl⟩
  listsSince := by
    intro r hr state
    dsimp only
    simp only [List.mem_cons, List.not_mem_nil, or_false] at hr
    rcases hr with hr | hr
    · have hstamp : stamp r = "1" := hr ▸ rfl
      rw [hstamp, pageAt_sinceEarly]
      exact ⟨[], rfl, by decide, rfl⟩
    · have hstamp : stamp r = "2" := hr ▸ rfl
      rw [hstamp, pageAt_sinceLate]
      exact ⟨[], rfl, by decide, rfl⟩
  resumes := by
    rintro state token rest ⟨rfl, rfl⟩
    exact Or.inl pageAt_token

/-- The first record comes twice, and the list was started anew at its datestamp. -/
theorem both_records_given :
    let given := [early, early, late]
    ((Cursor.ofQuery anyQuery).drain refusing 4 ⟨(), false⟩).1 = given.map .ok ∧
      given.length < 4 ∧ (∀ r ∈ [early, late], r ∈ given) ∧ [early, early].Sublist given ∧
      ∃ k < 4, ∃ url, anchor (given.take k) = some "1" ∧
        requested refusing (k + 1) (Cursor.ofQuery anyQuery) ⟨(), false⟩ =
          requested refusing k (Cursor.ofQuery anyQuery) ⟨(), false⟩ ++
            [url, anyQuery.urlSince (some "1")] := by
  intro given
  have hrun : ((Cursor.ofQuery anyQuery).drain refusing 4 ⟨(), false⟩).1 = given.map .ok := by
    rw [(drain_eq_listing anyQuery refusing refusingArchive.quiet () 4 4 (Nat.le_refl 4)).1,
      listing_again anyQuery refusing () pageAt_first pageAt_token pageAt_sinceEarly]
    rfl
  have htwice : [early, early].Sublist given := List.sublist_append_left [early, early] [late]
  obtain ⟨hevery, _, hanchors⟩ :=
    every_record_given anyQuery refusingArchive () 4 given hrun (by decide)
  exact ⟨hrun, by decide, hevery, htwice, hanchors early htwice⟩

end Harvest.Coverage
