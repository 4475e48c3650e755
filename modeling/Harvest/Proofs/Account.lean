import Harvest.Proofs.Answer
import Harvest.Proofs.Trail

/-!
The account of a run: a report tells exactly what happened to the records that the cursor handed out.
Each of them has become a document, was left out or was dropped. The invariant ties the cursor, the
flag and the counts of a run in progress to its course, and says of a run that has ended why it did.
-/
namespace Harvest.Account

open Fetching Observation Lifetime Course Trail

variable {σ τ : Type}

/-- The document of a record, if it has one. -/
def document? (w : Crosswalk) (r : Record) : Option Document :=
  match w.transform r with
  | .ok d => d
  | .error _ => none

/-- The record cannot be mapped. -/
def refuses (w : Crosswalk) (r : Record) : Bool :=
  match w.transform r with
  | .ok _ => false
  | .error _ => true

/-- The record is a deleted one, and such records are dropped. -/
def drops (policy : DeletionPolicy) (r : Record) : Bool :=
  policy == .dropDeleted && r.deleted && !r.identifier.isEmpty

theorem transform_eq_none_iff (w : Crosswalk) (r : Record) :
    w.transform r = .ok none ↔ drops w.context.deletionPolicy r = true := by
  rw [drops]
  cases Answer.kind r with
  | nameless hnone => simp [Answer.transform_nameless w hnone, hnone]
  | gone hsome hdeleted =>
    rw [Answer.transform_gone w hsome hdeleted, Answer.substitute]
    cases w.context.deletionPolicy with
    | dropDeleted => simp [hsome, hdeleted]
    | emitTombstone => simp
  | bare hsome hpresent hnone => simp [Answer.transform_bare w hsome hpresent hnone, hpresent]
  | full hsome hpresent metadata hmetadata =>
    rw [Answer.transform_full w hsome hpresent hmetadata]
    cases w.schemaFor r with
    | error e => simp [Except.map, hpresent]
    | ok schema => simp [Except.map, hpresent]

/-- Every record is counted once. -/
theorem length_eq_counts (w : Crosswalk) (records : List Record) :
    records.length = (records.filterMap (document? w)).length + records.countP (refuses w) +
      records.countP (drops w.context.deletionPolicy) := by
  induction records with
  | nil => rfl
  | cons r records ih =>
    have hdrops := transform_eq_none_iff w r
    rcases hr : w.transform r with e | _ | d
    · have hno : ¬drops w.context.deletionPolicy r = true := by simp [← hdrops, hr]
      have hdocument : document? w r = none := by simp [document?, hr]
      have hrefuses : refuses w r = true := by simp [refuses, hr]
      rw [List.filterMap_cons_none hdocument, List.countP_cons_of_pos hrefuses,
        List.countP_cons_of_neg hno, List.length_cons]
      omega
    · have hyes : drops w.context.deletionPolicy r = true := by simp [← hdrops, hr]
      have hdocument : document? w r = none := by simp [document?, hr]
      have hrefuses : ¬refuses w r = true := by simp [refuses, hr]
      rw [List.filterMap_cons_none hdocument, List.countP_cons_of_neg hrefuses,
        List.countP_cons_of_pos hyes, List.length_cons]
      omega
    · have hno : ¬drops w.context.deletionPolicy r = true := by simp [← hdrops, hr]
      have hdocument : document? w r = some d := by simp [document?, hr]
      have hrefuses : ¬refuses w r = true := by simp [refuses, hr]
      rw [List.filterMap_cons_some hdocument, List.countP_cons_of_neg hrefuses,
        List.countP_cons_of_neg hno, List.length_cons, List.length_cons]
      omega

theorem countP_drops (policy : DeletionPolicy) (records : List Record) :
    records.countP (drops policy) =
      match policy with
      | .dropDeleted => records.countP fun r => r.deleted && !r.identifier.isEmpty
      | .emitTombstone => 0 := by
  cases policy with
  | dropDeleted =>
    refine List.countP_congr ?_
    intro r _
    simp [drops]
  | emitTombstone => simp [drops]

/-- The flag was raised during a request or by the sink. -/
def Raised (seen : List Stage) : Prop :=
  (∃ f ∈ requests (calls seen), f.upAfter = true) ∨ ∃ d ∈ deliveries seen, d.raised = true

/-- The counts of a run agree with its course. -/
structure Tally (w : Crosswalk) (sink : Sink τ) (state : τ) (seen : List Stage) (r : Run σ τ) :
    Prop where
  cursor : seen.getLast?.map Stage.cursor = some r.cursor
  flag : r.session.aborted = true ↔ Raised seen
  handed : documents seen = (yielded seen).filterMap (document? w)
  taken : ∀ d ∈ deliveries seen, d.result = .ok ()
  kept : r.sink = (documents seen).foldl (fun state d => (sink d state).state) state
  documents : r.report.documents = (documents seen).length
  skipped : r.report.skipped = (yielded seen).countP (refuses w)
  deleted : r.report.deleted = (yielded seen).countP Record.deleted
  last : r.report.lastDatestamp = Pagination.anchor (yielded seen)
  labelled : (r.report.version, r.report.expectedSize) =
    ((accepted seen).head?.map label).getD (none, none)

/-- All records of all pages were handed out, and the last page has no token. -/
def Complete (seen : List Stage) : Prop :=
  yielded seen = (accepted seen).flatMap Page.records ∧
    ∃ page, (accepted seen).getLast? = some page ∧ page.nextToken? = none

/-- How a run stands: it goes on, or it is over, or the list failed, or the sink did. -/
inductive Standing (source : Source σ) (w : Crosswalk) (sink : Sink τ) (s : Session σ) (state : τ)
    (seen : List Stage) : Run.Progress σ τ → Prop
  | going (r : Run σ τ) (htrail : Traced source s.state (calls seen) ⟨r.cursor, r.session⟩)
      (htally : Tally w sink state seen r) (hopen : r.cursor.finished = false) :
      Standing source w sink s state seen (.going r)
  | finished (r : Run σ τ) (htrail : Traced source s.state (calls seen) ⟨r.cursor, r.session⟩)
      (htally : Tally w sink state seen r)
      (hcomplete : r.session.aborted = false → Complete seen) :
      Standing source w sink s state seen (.ended (.ok r.finalReport) r)
  | failed (r : Run σ τ) (e : Error)
      (htrail : Traced source s.state (calls seen) ⟨r.cursor, r.session⟩)
      (htally : Tally w sink state seen r) (hdown : r.session.aborted = false)
      (herror : ∃ url reason, e = .extraction url r.cursor.lastDatestamp reason) :
      Standing source w sink s state seen (.ended (.error e) r)
  | refused (r : Run σ τ) (e : Error) (before : List Stage) (last : Stage) (d : Document)
      (raised : Bool) (hseen : seen = before ++ [last])
      (hlast : last.delivery = some ⟨d, .error e, raised⟩)
      (htaken : ∀ delivery ∈ deliveries before, delivery.result = .ok ())
      (hcalm : ¬Raised before ∧ ¬∃ f ∈ last.call.fetches, f.upAfter = true) :
      Standing source w sink s state seen (.ended (.error e) r)

/-! One step -/

theorem deliveries_snoc (seen : List Stage) (last : Stage) :
    deliveries (seen ++ [last]) = deliveries seen ++ last.delivery.toList := by
  unfold deliveries
  rw [List.filterMap_append]
  cases h : last.delivery with
  | none => simp [h]
  | some d => simp [h]

theorem calls_snoc (seen : List Stage) (last : Stage) :
    calls (seen ++ [last]) = calls seen ++ [last.call] := by
  simp [calls]

theorem accepted_snoc (seen : List Stage) (last : Stage) :
    accepted (seen ++ [last]) = accepted seen ++ last.call.fetches.filterMap usable := by
  simp [accepted, calls, pages]

theorem yielded_snoc (seen : List Stage) (last : Stage) :
    yielded (seen ++ [last]) = yielded seen ++ last.call.record?.toList := by
  simp [yielded, calls, given_singleton]

theorem documents_snoc (seen : List Stage) (last : Stage) :
    documents (seen ++ [last]) = documents seen ++ (due last).toList := by
  rw [documents_append, documents_cons]
  exact congrArg _ (List.append_nil _)

theorem raised_snoc (seen : List Stage) (last : Stage) :
    Raised (seen ++ [last]) ↔ Raised seen ∨ (∃ f ∈ last.call.fetches, f.upAfter = true) ∨
      ∃ d ∈ last.delivery, d.raised = true := by
  unfold Raised
  have hrequests : requests (calls (seen ++ [last])) =
      requests (calls seen) ++ last.call.fetches := by
    simp [calls, requests]
  rw [hrequests, deliveries_snoc]
  simp only [List.mem_append, Option.mem_toList, or_and_right, exists_or, Option.mem_def]
  exact or_or_or_comm

/-- One more stage: what the run counts grows by what the stage shows. -/
theorem Tally.step {w : Crosswalk} {sink : Sink τ} {state : τ} {seen : List Stage}
    {r r' : Run σ τ} {last : Stage} (h : Tally w sink state seen r)
    (hfirst : (pages (calls seen ++ [last.call])).head? = (pages (calls seen)).head?)
    (hcursor : r'.cursor = last.cursor)
    (hflag : r'.session.aborted = true ↔ r.session.aborted = true ∨
      (∃ f ∈ last.call.fetches, f.upAfter = true) ∨ ∃ d ∈ last.delivery, d.raised = true)
    (hdocument : due last = last.call.record?.bind (document? w))
    (htaken : ∀ d ∈ last.delivery, d.result = .ok ())
    (hkept : r'.sink = (due last).toList.foldl (fun state d => (sink d state).state) r.sink)
    (hdocuments : r'.report.documents = r.report.documents + (due last).toList.length)
    (hskipped : r'.report.skipped =
      r.report.skipped + last.call.record?.toList.countP (refuses w))
    (hdeleted : r'.report.deleted =
      r.report.deleted + last.call.record?.toList.countP Record.deleted)
    (hlast : r'.report.lastDatestamp =
      (last.call.record?.bind Record.datestamp).or r.report.lastDatestamp)
    (hlabel : (r'.report.version, r'.report.expectedSize) =
      (r.report.version, r.report.expectedSize)) :
    Tally w sink state (seen ++ [last]) r' where
  cursor := by rw [List.getLast?_concat, hcursor, Option.map_some]
  flag := by rw [hflag, h.flag, raised_snoc]
  handed := by
    rw [documents_snoc, h.handed, yielded_snoc, List.filterMap_append, hdocument]
    cases last.call.record? with
    | none => rfl
    | some record => cases hd : document? w record with
      | none => simp [hd]
      | some d => simp [hd]
  taken := by
    intro d hd
    rw [deliveries_snoc, List.mem_append, Option.mem_toList] at hd
    exact hd.elim (h.taken d) (htaken d)
  kept := by rw [documents_snoc, List.foldl_append, ← h.kept, hkept]
  documents := by rw [documents_snoc, List.length_append, ← h.documents, hdocuments]
  skipped := by rw [yielded_snoc, List.countP_append, ← h.skipped, hskipped]
  deleted := by rw [yielded_snoc, List.countP_append, ← h.deleted, hdeleted]
  last := by rw [yielded_snoc, anchor_toList, ← h.last, hlast]
  labelled := by
    rw [hlabel, h.labelled, accepted, accepted, calls_append, ← hfirst]
    rfl

/-- What is known of a run that goes on, and of the call that comes next. -/
structure Onward (source : Source σ) (w : Crosswalk) (sink : Sink τ) (s : Session σ) (state : τ)
    (seen : List Stage) (r : Run σ τ) (e : Event) (l : Life σ) : Prop where
  tally : Tally w sink state seen r
  passage : Passage source ⟨r.cursor, r.session⟩ e l
  first : (pages (calls seen ++ [e])).head? = (pages (calls seen)).head?
  trail : Traced source s.state (calls seen ++ [e]) l

theorem Tally.call {source : Source σ} {w : Crosswalk} {sink : Sink τ} {s : Session σ} {state : τ}
    {seen : List Stage} {r : Run σ τ} {e : Event} {l : Life σ}
    (htally : Tally w sink state seen r)
    (htrail : Traced source s.state (calls seen) ⟨r.cursor, r.session⟩)
    (hopen : r.cursor.finished = false)
    (hcall : call source ⟨r.cursor, r.session⟩ .next = (e, l)) :
    Onward source w sink s state seen r e l := by
  have hpassage := next_passage source r.cursor r.session
  have hchange := next_change source r.cursor r.session htrail.accounts.settled
  rw [hcall] at hpassage hchange
  exact {
    tally := htally
    passage := hpassage
    first := htrail.first_page hopen hpassage
    trail := htrail.step hchange hpassage }

section

variable {source : Source σ} {w : Crosswalk} {sink : Sink τ} {s : Session σ} {state : τ}
  {seen : List Stage} {r : Run σ τ} {e : Event} {l : Life σ} {record : Record}

/-- A stage without a record. -/
theorem Onward.ended (h : Onward source w sink s state seen r e l) (hrecord : e.record? = none) :
    Tally w sink state (seen ++ [⟨e, l.cursor, none⟩]) (moved l r) := by
  refine h.tally.step h.first rfl ?_ ?_ ?_ rfl rfl ?_ ?_ ?_ rfl
  · simpa [moved] using h.passage.raised
  · simp [due, hrecord]
  · simp
  · simp [hrecord, moved]
  · simp [hrecord, moved]
  · simp [hrecord, moved]

/-- A stage with a record that cannot be mapped. -/
theorem Onward.omitted (h : Onward source w sink s state seen r e l)
    (hrecord : e.record? = some record) {cause : Error}
    (hcause : w.transform record = .error cause) :
    Tally w sink state (seen ++ [⟨e, l.cursor, none⟩])
      ((omitted (counted record (moved l r))).passed record) := by
  have hdocument : document? w record = none := by simp [document?, hcause]
  have hrefuses : refuses w record = true := by simp [refuses, hcause]
  refine h.tally.step h.first rfl ?_ ?_ ?_ rfl rfl ?_ ?_ ?_ rfl
  · simpa [Course.omitted, counted, moved, Run.passed] using h.passage.raised
  · simp [due, hrecord, hdocument]
  · simp
  · simp [hrecord, hrefuses, Course.omitted, counted, moved, Run.passed]
  · simp [hrecord, List.countP_cons, Course.omitted, counted, moved, Run.passed]
  · simp [hrecord, Course.omitted, counted, moved, Run.passed]

/-- A stage with a record that is dropped. -/
theorem Onward.dropped (h : Onward source w sink s state seen r e l)
    (hrecord : e.record? = some record) (hnone : w.transform record = .ok none) :
    Tally w sink state (seen ++ [⟨e, l.cursor, none⟩])
      ((counted record (moved l r)).passed record) := by
  have hdocument : document? w record = none := by simp [document?, hnone]
  have hrefuses : refuses w record = false := by simp [refuses, hnone]
  refine h.tally.step h.first rfl ?_ ?_ ?_ rfl rfl ?_ ?_ ?_ rfl
  · simpa [counted, moved, Run.passed] using h.passage.raised
  · simp [due, hrecord, hdocument]
  · simp
  · simp [hrecord, hrefuses, counted, moved, Run.passed]
  · simp [hrecord, List.countP_cons, counted, moved, Run.passed]
  · simp [hrecord, counted, moved, Run.passed]

/-- A stage with a record whose document the sink takes. -/
theorem Onward.taken (h : Onward source w sink s state seen r e l)
    (hrecord : e.record? = some record) {d : Document} (hd : w.transform record = .ok (some d)) :
    Tally w sink state
      (seen ++ [⟨e, l.cursor, some ⟨d, .ok (), (sink d r.sink).raised⟩⟩])
      (((counted record (moved l r)).deliver sink d).2.passed record) := by
  have hdocument : document? w record = some d := by simp [document?, hd]
  have hrefuses : refuses w record = false := by simp [refuses, hd]
  refine h.tally.step h.first rfl ?_ ?_ ?_ ?_ ?_ ?_ ?_ ?_ rfl
  · simp [Run.deliver, counted, moved, Run.passed, h.passage.raised, or_assoc]
  · simp [due, hrecord, hdocument]
  · simp
  · rfl
  · rfl
  · simp [hrecord, hrefuses, Run.deliver, counted, moved, Run.passed]
  · simp [hrecord, List.countP_cons, Run.deliver, counted, moved, Run.passed]
  · simp [hrecord, Run.deliver, counted, moved, Run.passed]

end

theorem standing_step {source : Source σ} {w : Crosswalk} {sink : Sink τ} {s : Session σ}
    {state : τ} (seen : List Stage) (r : Run σ τ)
    (h : Standing source w sink s state seen (.going r)) :
    Standing source w sink s state (seen ++ [stage source w sink r]) (r.step source w sink) := by
  cases h with
  | going _ htrail htally hopen =>
  have hwent := went source w sink r
  generalize stage source w sink r = last at *
  generalize r.step source w sink = p at *
  cases hwent with
  | finished fetches l hcall =>
    have honward := htally.call htrail hopen hcall
    refine .finished _ (calls_snoc seen _ ▸ honward.trail) (honward.ended rfl) ?_
    intro hdown
    obtain ⟨hwhole, hnone, hend⟩ := htrail.complete hopen hcall hdown
    subst hnone
    rw [Complete, yielded_snoc, accepted_snoc]
    simpa [Event.record?] using ⟨hwhole, hend⟩
  | failed fetches l e hcall =>
    have honward := htally.call htrail hopen hcall
    obtain ⟨hdown, herror⟩ := next_error hcall
    exact .failed _ e (calls_snoc seen _ ▸ honward.trail) (honward.ended rfl) hdown herror
  | omitted fetches l record e hcall hrecord =>
    have honward := htally.call htrail hopen hcall
    exact .going _ (calls_snoc seen _ ▸ honward.trail) (honward.omitted rfl hrecord)
      (next_record hcall).1
  | dropped fetches l record hcall hrecord =>
    have honward := htally.call htrail hopen hcall
    exact .going _ (calls_snoc seen _ ▸ honward.trail) (honward.dropped rfl hrecord)
      (next_record hcall).1
  | taken fetches l record d hcall hrecord hsink =>
    have honward := htally.call htrail hopen hcall
    exact .going _ (calls_snoc seen _ ▸ honward.trail.raise (sink d r.sink).raised)
      (honward.taken rfl hrecord) (next_record hcall).1
  | refused fetches l record d e hcall hrecord hsink =>
    have honward := htally.call htrail hopen hcall
    -- A record comes only with the flag down, so that nothing has raised it up to this call.
    have hdown : ¬l.session.aborted = true := by simp [(next_record hcall).2]
    rw [honward.passage.raised, not_or] at hdown
    refine .refused _ e seen _ d _ rfl rfl htally.taken ⟨?_, hdown.2⟩
    exact fun hraised => hdown.1 (htally.flag.mpr hraised)

/-! The whole course -/

/-- Before the first record nothing is counted. -/
theorem tally_opening {source : Source σ} {w : Crosswalk} {sink : Sink τ} {query : ListQuery}
    {s : Session σ} {state : τ} {report : Report} {e : Event} {l : Life σ}
    (hcall : call source ⟨.ofQuery query, s⟩ .start = (e, l)) (hdown : s.aborted = false)
    (hrecord : e.record? = none)
    (hnew : report = { expectedSize := l.cursor.expectedSize, version := l.cursor.version }) :
    Tally w sink state [⟨e, l.cursor, none⟩] ⟨l.cursor, l.session, state, report⟩ := by
  have hpassage := start_passage source (.ofQuery query) s
  have htrail := traced_opening source query s hdown
  rw [hcall] at hpassage htrail
  subst hnew
  have hgiven : given [e] = [] := by rw [given_singleton, hrecord]; rfl
  exact {
    cursor := rfl
    flag := by simpa [Raised, calls, requests, deliveries, hdown] using hpassage.raised
    handed := by simp [documents, deliveries, yielded, calls, hgiven]
    taken := by simp [deliveries]
    kept := rfl
    documents := rfl
    skipped := by simp [yielded, calls, hgiven]
    deleted := by simp [yielded, calls, hgiven]
    last := by simp [yielded, calls, hgiven, Pagination.anchor]
    labelled := htrail.accounts.labelled }

theorem standing_start (source : Source σ) (w : Crosswalk) (sink : Sink τ) (query : ListQuery)
    (s : Session σ) (state : τ) (hdown : s.aborted = false) :
    Standing source w sink s state [opening source query s] (Run.start source query s state) := by
  have htrail := traced_opening source query s hdown
  rcases hstart : (Cursor.ofQuery query).start source s with ⟨e | u, c, s'⟩
  · obtain ⟨fetches, hcall⟩ := call_start hstart
    obtain ⟨hdown', hversion, hsize, herror⟩ := start_error hcall
    rw [hcall] at htrail
    simp only [opening, hcall, Run.start, hstart]
    exact .failed _ e htrail (tally_opening hcall hdown rfl (by rw [hversion, hsize]; rfl)) hdown'
      herror
  · obtain ⟨fetches, hcall⟩ := call_start hstart
    rw [hcall] at htrail
    simp only [opening, hcall, Run.start, hstart]
    exact .going _ htrail (tally_opening hcall hdown rfl rfl) (start_open hcall)

theorem standing_course (source : Source σ) (w : Crosswalk) (sink : Sink τ) (query : ListQuery)
    (s : Session σ) (state : τ) (limit : ℕ) (hdown : s.aborted = false) :
    Standing source w sink s state
      (opening source query s :: stages source w sink limit (Run.start source query s state))
      (advance source w sink limit (Run.start source query s state)) :=
  advance_induction (P := Standing source w sink s state)
    (fun seen r h => standing_step seen r h) limit [opening source query s] _
    (standing_start source w sink query s state hdown)

/-- The crosswalk of a harvest has the context of its settings, unless another one is bound. -/
theorem context_of_settings {h : Harvester} {w : Crosswalk} (hw : h.crosswalkToUse = .ok w)
    (hcoherent : Coherent h) : w.context = Context.ofSettings h.provider h.settings := by
  have hcrosswalk : h.crosswalk = .ok w := hcoherent.crosswalkToUse.symm.trans hw
  unfold Harvester.crosswalk at hcrosswalk
  rcases hvalid : h.validate with e | schema
  · simp [hvalid, bind, Except.bind] at hcrosswalk
  · simp only [hvalid, bind, Except.bind] at hcrosswalk
    split at hcrosswalk
    · rw [← Except.ok.inj hcrosswalk]
    · cases schema with
      | none => cases hcrosswalk
      | some schema => rw [← Except.ok.inj hcrosswalk]

/-- A harvest with a report accounts for all records that its cursor handed out. The sink was given
their documents, in order, and nothing else. The records without one were left out, because they
cannot be mapped, or dropped, because they are deleted. The report has the number of requests, the
last datestamp as the cursor has it, the label of the first page, and whether the flag was raised.
Where it was not, the records are all those of the pages taken in, of which the last has no token. -/
theorem report_accounts (source : Source σ) (sink : Sink τ) (limit : ℕ) (h : Harvester)
    (s : Session σ) (state : τ) (report : Report) (h' : Harvester) (s' : Session σ) (state' : τ)
    (hok : h.harvestEach source sink limit s state = some (.ok report, h', s', state')) :
    let seen := course source sink limit h s state
    let records := yielded seen
    ∃ w cursor, h.crosswalkToUse = .ok w ∧
      (Coherent h → w.context = Context.ofSettings h.provider h.settings) ∧
      seen.getLast?.map Stage.cursor = some cursor ∧
      documents seen = records.filterMap (document? w) ∧
      state' = (documents seen).foldl (fun state d => (sink d state).state) state ∧
      report.documents = (documents seen).length ∧
      report.skipped = records.countP (refuses w) ∧
      report.deleted = records.countP Record.deleted ∧
      records.length = report.documents + report.skipped +
        (match w.context.deletionPolicy with
          | .dropDeleted => records.countP fun r => r.deleted && !r.identifier.isEmpty
          | .emitTombstone => 0) ∧
      report.pages = (urls seen).length ∧ s'.state = reach source s.state (urls seen) ∧
      report.lastDatestamp = Pagination.anchor records ∧
      cursor.lastDatestamp = report.lastDatestamp ∧
      report.version =
        (accepted seen).head?.bind (fun page => page.records.head?.map Record.identifier) ∧
      report.expectedSize =
        (accepted seen).head?.bind (fun page => page.token.bind (·.completeListSize)) ∧
      report.aborted = s'.aborted ∧ (report.aborted = true ↔ Raised seen) ∧
      records <+: (accepted seen).flatMap Page.records ∧
      (report.aborted = false → records = (accepted seen).flatMap Page.records ∧
        ∃ page, (accepted seen).getLast? = some page ∧ page.nextToken? = none) := by
  intro seen records
  rcases harvestEach_cases source sink limit h s state with
    ⟨e, _, hresult, _⟩ | ⟨w, query, hw, hquery⟩
  · rw [hresult] at hok
    cases hok
  · have hstanding := standing_course source w sink query { s with aborted := false } state limit rfl
    rw [harvestEach_eq source sink limit s state hw hquery] at hok
    rw [← course_eq source sink limit s state hw hquery] at hstanding
    generalize advance source w sink limit _ = p at hok hstanding
    cases hstanding with
    | going r htrail htally hopen => cases hok
    | failed r e htrail htally hdown herror => cases hok
    | refused r e before last d raised hseen hlast htaken => cases hok
    | finished r htrail htally hcomplete =>
      simp only [outcome, Option.map_some, Option.some.injEq, Prod.mk.injEq, Except.ok.injEq] at hok
      obtain ⟨rfl, rfl, rfl, rfl⟩ := hok
      have hlabel := Prod.mk.inj htally.labelled
      have hflow := htrail.accounts.flow
      refine ⟨w, r.cursor, hw, context_of_settings hw, htally.cursor, htally.handed, htally.kept,
        htally.documents, htally.skipped, htally.deleted, ?_, ?_, htrail.reached, htally.last, ?_,
        ?_, ?_, rfl, htally.flag, ?_, hcomplete⟩
      · rw [length_eq_counts w records, ← htally.handed, ← countP_drops, ← htally.documents,
          ← htally.skipped]
        rfl
      · rw [urls, List.length_map]
        exact htrail.pages
      · exact htrail.last.trans htally.last.symm
      · refine hlabel.1.trans ?_
        cases (accepted seen).head? with
        | none => rfl
        | some page => rfl
      · refine hlabel.2.trans ?_
        cases (accepted seen).head? with
        | none => rfl
        | some page => rfl
      · exact (List.prefix_append _ _).trans hflow

/-! A page with a record that cannot be mapped between two that are deleted -/

def goneBody : String :=
  "<r><ListRecords><record><header status=\"deleted\"><identifier>a</identifier>" ++
    "<datestamp>1</datestamp></header></record><record/><record><header status=\"deleted\">" ++
    "<identifier>b</identifier></header></record></ListRecords></r>"

def gonePage : Page where
  records := [⟨{ identifier := "a", datestamp := some "1", deleted := true }, none⟩, ⟨{}, none⟩,
    ⟨{ identifier := "b", deleted := true }, none⟩]

/-- A harvester that keeps deleted records as tombstones. -/
def keeper : Harvester where
  settings := { hostUrl := some "h", metadataPrefix := some "p", mixedSchemas := true,
                deletionPolicy := .emitTombstone }
  formats := ⟨[("p", "s")]⟩
  provider := Repository.unknownName

def keeperQuery : ListQuery := { hostUrl := "h", metadataPrefix := "p" }

def keeperCrosswalk : Crosswalk where
  mapping := .declared
  context := { repository := Repository.unknownName, deletionPolicy := .emitTombstone }

def keeperReport : Report where
  documents := 2
  deleted := 2
  skipped := 1
  version := some "a"
  lastDatestamp := some "1"
  pages := 1

set_option maxRecDepth 20000 in
theorem ofAnswer_goneBody : Page.ofAnswer (.ok goneBody) = (gonePage, .noRecords) := by
  rfl

theorem keeper_crosswalk : keeper.crosswalkToUse = .ok keeperCrosswalk := by
  rfl

theorem keeper_query : ListQuery.ofSettings keeper.settings = .ok keeperQuery := by
  rfl

theorem keeper_harvest {answers : String → Except Error String}
    (hpage : Page.ofAnswer (answers keeperQuery.url) = (gonePage, .noRecords)) :
    keeper.harvestEach (.fixed answers) .collect 4 ⟨(), true⟩ [] =
      some (.ok keeperReport, { keeper with bound := some keeperCrosswalk }, ⟨(), false⟩,
        [.tombstone "a" "Unknown" (some "1"), .tombstone "b" "Unknown" none]) := by
  rw [harvestEach_eq _ _ _ _ _ keeper_crosswalk keeper_query, start_fixed hpage rfl]
  rfl

/-- Of three records two are documents, and the one between them is left out. -/
theorem gone_accounted :
    let source : Source Unit := .fixed fun _ => .ok goneBody
    let seen := course source .collect 4 keeper ⟨(), true⟩ []
    keeper.harvestEach source .collect 4 ⟨(), true⟩ [] =
        some (.ok keeperReport, { keeper with bound := some keeperCrosswalk }, ⟨(), false⟩,
          [.tombstone "a" "Unknown" (some "1"), .tombstone "b" "Unknown" none]) ∧
      (yielded seen).length = 3 ∧ (documents seen).length = 2 ∧ (urls seen).length = 1 ∧
        yielded seen = (accepted seen).flatMap Page.records := by
  intro source seen
  have hrun : keeper.harvestEach source .collect 4 ⟨(), true⟩ [] = _ :=
    keeper_harvest ofAnswer_goneBody
  refine ⟨hrun, ?_⟩
  obtain ⟨w, cursor, _, hcontext, _, _, _, hdocuments, _, _, hlength, hpages, _, _, _, _, _, _, _,
    _, hwhole⟩ := report_accounts source .collect 4 keeper ⟨(), true⟩ [] _ _ _ _ hrun
  have hpolicy : w.context.deletionPolicy = .emitTombstone := by
    rw [hcontext fun bound hbound => by cases hbound]
    rfl
  rw [hpolicy] at hlength
  exact ⟨hlength, hdocuments.symm, hpages.symm, (hwhole rfl).1⟩

end Harvest.Account
