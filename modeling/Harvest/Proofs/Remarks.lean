import Harvest.Proofs.Growth
import Harvest.Proofs.Parting
import Mathlib.Logic.Relation

/-!
Comments and processing instructions put into a page. None of them changes how many records there
are, which are deleted, or what else is read from attributes. A text is read up to the first of
them. So what is read of a text changes exactly when one is put in front of some of it that is no
blank; where none is, the page has the same headers, the same token and the same error.
-/
namespace Harvest.Remarks

open Xml Blanks Reading Parting Envelope Growth

/-! A remark put in -/

section

variable {read : List String → Bool} {f : Frame} {outer : List Frame} {root : Option Element}
  {rest : List Token} {s t more : List Char}

theorem seen_remark (above : List String) :
    seen read above (f.addNode .remark) = seen read above f := by
  rw [seen_addNode read above rfl, viewOf, viewOf, List.append_nil]

theorem names_addText (s : List Char) : names (f.addText s :: outer) = names (f :: outer) := by
  rw [addText_eq]
  rfl

theorem same_cons_iff {f' : Frame} : Same read rest ⟨f :: outer, root⟩ ⟨f' :: outer, root⟩ ↔
    seen read (names outer) (f.addText (coming rest)) =
      seen read (names outer) (f'.addText (coming rest)) := by
  constructor
  · rintro ⟨hopened, -⟩
    cases hopened with
    | cons hseen _ => exact hseen
  · intro hseen
    exact ⟨.cons hseen rfl, rfl⟩

/-- A remark between two tokens makes a difference exactly if text that is read follows. -/
theorem same_remark_iff : Same read rest ⟨f :: outer, root⟩ ⟨f.addNode .remark :: outer, root⟩ ↔
    (read (names (f :: outer)) = true → begins f = true →
      (coming rest).all Text.isBlank = true) := by
  rw [same_cons_iff, seen_addNode_addText read _ rfl, seen_remark]
  refine ⟨fun h hread hbegins => ?_, seen_addText read (names outer)⟩
  exact solid_eq_nil.mp (solid_of_seen read (names outer) hread hbegins
    (h.trans (seen_addText_nil read (names outer)).symm))

/-- A remark in a text makes a difference exactly if the text is read and goes on. -/
theorem same_parted_iff (hsolid : solid t = solid s ++ solid more)
    (hparted : solid more = [] → Text.trimEnd t = Text.trimEnd s) :
    Same read rest ⟨f.addText t :: outer, root⟩
        ⟨((f.addText s).addNode .remark).addText more :: outer, root⟩ ↔
      (read (names (f :: outer)) = true → begins f = true →
        (more ++ coming rest).all Text.isBlank = true) := by
  have hpath : names (f.addText t :: outer) = names (f :: outer) := names_addText t
  rw [same_cons_iff, addText_addText, addText_addText, seen_addNode_addText read _ rfl, seen_remark]
  constructor
  · intro h hread hbegins
    have hsame := solid_of_seen read (names outer) hread hbegins h
    rw [solid_append, hsolid, List.append_assoc, ← solid_append] at hsame
    exact solid_eq_nil.mp (List.append_cancel_left (hsame.trans (List.append_nil _).symm))
  · intro h
    refine seen_addText_congr read (names outer) fun hread hbegins => ?_
    have hnone := solid_eq_nil.mpr (h hread hbegins)
    rw [solid_append, List.append_eq_nil_iff] at hnone
    rw [trimEnd_append_blank t (solid_eq_nil.mp hnone.2), hparted hnone.1]

end

/-! Places in a document -/

/-- A document read as far as its first part goes. -/
def grown? (before : List Char) : Option Growing := do
  let s ← skipProlog before
  let tokens ← Token.all s
  tokens.foldlM Growing.step Growing.start

/-- Whether a remark at this place, behind `g` and in front of `after`, cuts text off the text that
the open element begins with, and that text is read. -/
def cutsOff (read : List String → Bool) (g : Growing) (after : List Char) : Bool :=
  read (names g.opened) && g.opened.head?.any begins &&
    !(coming ((Token.all after).getD [])).all Text.isBlank

/-- A comment or a processing instruction is put into the content of an element, at a place of which
`fits` holds. -/
inductive Inserts (fits : Growing → List Char → Prop) : String → String → Prop
  | remark {before remark after : List Char} {g : Growing} (hbefore : grown? before = some g)
      (hinside : g.opened ≠ []) (hremark : Token.next remark = some (.remark, []))
      (hfits : fits g after) :
      Inserts fits (String.ofList (before ++ after)) (String.ofList (before ++ remark ++ after))

theorem parse?_eq (document : String) :
    parse? document = (grown? document.toList).bind Growing.finish := by
  unfold parse? grown? Element.ofTokens?
  simp only [Option.bind_eq_bind, Option.bind_assoc]

theorem grown?_eq_some {s : List Char} {g : Growing} : grown? s = some g ↔
    ∃ t tokens, skipProlog s = some t ∧ Tokens t tokens ∧
      tokens.foldlM Growing.step Growing.start = some g := by
  simp only [grown?, Option.bind_eq_bind, Option.bind_eq_some_iff, all_eq_some]
  tauto

/-- What a remark between the tokens of two parts makes of the document, when the first part is read
and the second follows. -/
theorem insert_iff {tokens rest whole : List Token} {g k : Growing}
    (hparts : Parts tokens rest whole)
    (hbefore : tokens.foldlM Growing.step Growing.start = some g) (hinside : g.opened ≠ [])
    (hwhole : whole.foldlM Growing.step Growing.start = some k) {root : Element}
    (hroot : k.finish = some root) :
    ∃ k' root', (tokens ++ .remark :: rest).foldlM Growing.step Growing.start = some k' ∧
      k'.finish = some root' ∧ ∀ read, view read [] root = view read [] root' ↔
        (read (names g.opened) = true → g.opened.head?.any begins = true →
          (coming rest).all Text.isBlank = true) := by
  cases hparts with
  | between =>
    obtain ⟨opened, outermost⟩ := g
    obtain ⟨f, outer, rfl⟩ := List.exists_cons_of_ne_nil hinside
    rw [List.foldlM_append, hbefore] at hwhole
    have hlevel : Level rest ⟨f :: outer, outermost⟩ ⟨f.addNode .remark :: outer, outermost⟩ :=
      same_remark_iff.mpr nofun
    obtain ⟨k', root', hk', hroot', hview⟩ := same_iff hlevel hwhole hroot
    refine ⟨k', root', ?_, hroot', fun read => ?_⟩
    · rw [List.foldlM_append, hbefore]
      exact hk'
    · rw [hview, same_remark_iff, List.head?_cons, Option.any_some]
  | inText earlier raw raw' more =>
    rw [List.foldlM_append] at hbefore hwhole
    obtain ⟨g₀, hearlier, hbefore⟩ := Option.bind_eq_some_iff.mp hbefore
    rw [hearlier, Option.bind_eq_bind, Option.bind_some] at hwhole
    obtain ⟨g', hg, hbefore⟩ := Option.bind_eq_some_iff.mp hbefore
    obtain rfl := Option.some.inj hbefore
    obtain ⟨g₁, hg₁, hwhole⟩ := Option.bind_eq_some_iff.mp hwhole
    have hgoes := step_eq_some.mp hg
    cases hgoes with
    | blank => exact absurd rfl hinside
    | @text f outer outermost _ s hs =>
      have hgoes := step_eq_some.mp hg₁
      cases hgoes with
      | @text _ _ _ _ t ht =>
        obtain ⟨y, hy, hsolid, hparted⟩ := textOfRaw_append hs ht
        have hlevel : Level more ⟨f.addText t :: outer, outermost⟩
            ⟨((f.addText s).addNode .remark).addText y :: outer, outermost⟩ :=
          (same_parted_iff hsolid hparted).mpr nofun
        obtain ⟨k', root', hk', hroot', hview⟩ := same_iff hlevel hwhole hroot
        refine ⟨k', root', ?_, hroot', fun read => ?_⟩
        · rw [List.append_assoc, List.foldlM_append, hearlier]
          simp only [List.singleton_append, List.foldlM_cons, Option.bind_eq_bind,
            Option.bind_some, hg, step_eq_some.mpr .remark, step_eq_some.mpr (.text hy)]
          exact hk'
        · rw [hview, same_parted_iff hsolid hparted, names_addText, List.head?_cons,
            Option.any_some, begins_addText, coming, hy, Option.getD_some]

/-! Pages with remarks -/

/-- A document with a remark put in can still be read, and it looks the same exactly if the remark
cuts off no text that is looked at. -/
theorem view_of_inserts {fits : Growing → List Char → Prop} {body body' : String} {root : Element}
    (h : Inserts fits body body') (hroot : parse? body = some root) :
    ∃ g after root', fits g after ∧ parse? body' = some root' ∧
      ∀ read, view read [] root = view read [] root' ↔ cutsOff read g after = false := by
  obtain @⟨before, remark, after, g, hbefore, hinside, hremark, hfits⟩ := h
  rw [parse?_eq, String.toList_ofList] at hroot
  obtain ⟨k, hwhole, hfinish⟩ := Option.bind_eq_some_iff.mp hroot
  obtain ⟨s, tokens, hprolog, htokens, hrun⟩ := grown?_eq_some.mp hbefore
  have hne : tokens ≠ [] := by
    rintro rfl
    obtain rfl := Option.some.inj hrun
    exact hinside rfl
  have hprolog' := skipProlog_append hprolog htokens hne
  obtain ⟨_, whole, hwholeProlog, hwholeTokens, hwholeRun⟩ := grown?_eq_some.mp hwhole
  obtain rfl := Option.some.inj (hwholeProlog.symm.trans (hprolog' after))
  obtain ⟨rest, hrest, hparts⟩ := htokens.part hwholeTokens
  obtain ⟨k', root', hk', hroot', hview⟩ := insert_iff hparts hrun hinside hwholeRun hfinish
  have hgrown : grown? (before ++ remark ++ after) = some k' := by
    refine grown?_eq_some.mpr ⟨s ++ (remark ++ after), _, ?_, ?_, hk'⟩
    · rw [List.append_assoc, hprolog']
    · rw [← List.append_assoc]
      exact htokens.insert hrest hremark
  refine ⟨g, after, root', hfits, ?_, fun read => ?_⟩
  · rw [parse?_eq, String.toList_ofList, hgrown, Option.bind_some, hroot']
  · rw [hview, cutsOff, all_eq_some.mpr hrest, Option.getD_some]
    cases read (names g.opened) <;> cases g.opened.head?.any begins <;> simp

/-- However many remarks are put in, one after the other. -/
theorem view_of_many {read : List String → Bool} {body body' : String} {root : Element}
    (h : Relation.ReflTransGen (Inserts fun g after => cutsOff read g after = false) body body')
    (hroot : parse? body = some root) :
    ∃ root', parse? body' = some root' ∧ view read [] root = view read [] root' := by
  induction h with
  | refl => exact ⟨root, hroot, rfl⟩
  | tail _ hlast ih =>
    obtain ⟨root₁, hroot₁, hview₁⟩ := ih
    obtain ⟨g, after, root₂, hcut, hroot₂, hview₂⟩ := view_of_inserts hlast hroot₁
    exact ⟨root₂, hroot₂, hview₁.trans ((hview₂ read).mpr hcut)⟩

theorem parse_eq_ok {body : String} {p : Page} :
    Page.parse body = .ok p ↔ ∃ root, parse? body = some root ∧ Page.ofElement root = p := by
  unfold Page.parse
  cases parse? body with
  | none => simp
  | some root => simp

/-- Wherever remarks are put into a page, it can still be read, and it has as many records, the same
of them deleted, the same size of the complete list and the same error code. Where none of them cuts
off text that is read, it has the same headers in the same order, the same token and the same error,
so that the same page comes next. Where one does, the document does not look the same. -/
theorem remarks_read_over {body body' : String} {p : Page} (hp : Page.parse body = .ok p) :
    (Relation.ReflTransGen (Inserts fun _ _ => True) body body' →
      ∃ p', Page.parse body' = .ok p' ∧ p'.records.length = p.records.length ∧
        (cover p').marks = (cover p).marks) ∧
    (Relation.ReflTransGen (Inserts fun g after => cutsOff isRead g after = false) body body' →
      ∃ p', Page.parse body' = .ok p' ∧ cover p' = cover p ∧ p'.nextToken? = p.nextToken?) ∧
    (Inserts (fun g after => cutsOff isRead g after = true) body body' →
      ∃ root root', parse? body = some root ∧ parse? body' = some root' ∧
        view isRead [] root ≠ view isRead [] root') := by
  obtain ⟨root, hroot, rfl⟩ := parse_eq_ok.mp hp
  refine ⟨fun hmany => ?_, fun hmany => ?_, fun hone => ?_⟩
  · -- Nothing is cut off where no text is read.
    have hmany : Relation.ReflTransGen
        (Inserts fun g after => cutsOff (fun _ => false) g after = false) body body' := by
      refine Relation.ReflTransGen.mono ?_ _ _ hmany
      rintro _ _ ⟨hbefore, hinside, hremark, -⟩
      exact .remark hbefore hinside hremark rfl
    obtain ⟨root', hroot', hview⟩ := view_of_many hmany hroot
    have hmarks : (cover (Page.ofElement root')).marks = (cover (Page.ofElement root)).marks := by
      rw [← marks_view (fun _ => false) root', ← hview, marks_view]
    refine ⟨_, parse_eq_ok.mpr ⟨root', hroot', rfl⟩, ?_, hmarks⟩
    have hlength := congrArg (fun m => m.deleted.length) hmarks
    simpa [cover, Cover.marks] using hlength
  · obtain ⟨root', hroot', hview⟩ := view_of_many hmany hroot
    have hcover : cover (Page.ofElement root') = cover (Page.ofElement root) := by
      rw [← cover_view root', ← hview, cover_view]
    have htoken : (Page.ofElement root').token = (Page.ofElement root).token :=
      congrArg Cover.token hcover
    refine ⟨_, parse_eq_ok.mpr ⟨root', hroot', rfl⟩, hcover, ?_⟩
    rw [Page.nextToken?, htoken, Page.nextToken?]
  · obtain ⟨g, after, root', hcut, hroot', hview⟩ := view_of_inserts hone hroot
    refine ⟨root, root', hroot, hroot', fun hsame => ?_⟩
    rw [(hview isRead).mp hsame] at hcut
    cases hcut

/-! A page with a token, with a remark behind its text and with one in front of it -/

def opening : List Char :=
  "<OAI-PMH><ListRecords><record/><resumptionToken>".toList

def ending : List Char := "</resumptionToken></ListRecords></OAI-PMH>".toList

def comment : List Char := "<!---->".toList

theorem inserts_of_check {fits : Growing → List Char → Prop}
    [∀ g after, Decidable (fits g after)] {before after : List Char}
    (h : (grown? before).any (fun g => !g.opened.isEmpty && decide (fits g after)) = true) :
    Inserts fits (String.ofList (before ++ after))
      (String.ofList (before ++ comment ++ after)) := by
  cases hg : grown? before with
  | none =>
    rw [hg] at h
    cases h
  | some g =>
    rw [hg, Option.any_some, Bool.and_eq_true, decide_eq_true_iff] at h
    exact .remark hg (by simpa using h.1) rfl h.2

theorem remark_behind_token :
    let body := String.ofList (opening ++ ['t'] ++ ending)
    let body' := String.ofList (opening ++ ['t'] ++ comment ++ ending)
    Inserts (fun g after => cutsOff isRead g after = false) body body' ∧
      ∃ p, Page.parse body = .ok p ∧ ∃ p', Page.parse body' = .ok p' ∧ cover p' = cover p ∧
        p'.nextToken? = p.nextToken? := by
  intro body body'
  have hinserts : Inserts (fun g after => cutsOff isRead g after = false) body body' :=
    inserts_of_check (by decide +kernel)
  have hok : (Page.parse body).toBool = true := by decide +kernel
  cases hp : Page.parse body with
  | error e =>
    rw [hp] at hok
    cases hok
  | ok p => exact ⟨hinserts, p, rfl, (remarks_read_over hp).2.1 (.single hinserts)⟩

/-- The token that the next page is asked for with. -/
def tokenOf (body : String) : Option String := (Page.parse body).toOption.bind Page.nextToken?

/-- A remark in front of the text of a token does away with the token. -/
theorem remark_loses_token :
    ¬ ∀ (body body' : String) (p : Page), Page.parse body = .ok p →
      Relation.ReflTransGen (Inserts fun _ _ => True) body body' →
        ∃ p', Page.parse body' = .ok p' ∧ cover p' = cover p := by
  intro hall
  have hinserts : Inserts (fun _ _ => True) (String.ofList (opening ++ 't' :: ending))
      (String.ofList (opening ++ comment ++ 't' :: ending)) :=
    inserts_of_check (by decide +kernel)
  have htoken : tokenOf (String.ofList (opening ++ 't' :: ending)) = some "t" := by decide +kernel
  have hlost : tokenOf (String.ofList (opening ++ comment ++ 't' :: ending)) = none := by
    decide +kernel
  cases hp : Page.parse (String.ofList (opening ++ 't' :: ending)) with
  | error e =>
    rw [tokenOf, hp] at htoken
    cases htoken
  | ok p =>
    obtain ⟨p', hp', hcover⟩ := hall _ _ p hp (.single hinserts)
    have hsame : p'.token = p.token := congrArg Cover.token hcover
    have hnext : tokenOf (String.ofList (opening ++ comment ++ 't' :: ending)) =
        tokenOf (String.ofList (opening ++ 't' :: ending)) := by
      rw [tokenOf, tokenOf, hp, hp']
      simp only [Except.toOption, Option.bind_some, Page.nextToken?, hsame]
    rw [hlost, htoken] at hnext
    cases hnext

end Harvest.Remarks
