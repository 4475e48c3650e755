import Harvest.Proofs.Account

/-!
The past of a harvester. Between two calls a harvester keeps what it has worked out before: the
formats and the name of its repository, and the crosswalk of its last run. All of it belongs to the
present settings, so that on a source with fixed answers a harvester is like a new one with the last
settings, whatever was done with it.
-/
namespace Harvest.Renewal

open Course Account

variable {σ τ : Type}

/-- A harvester with some past, and the last settings given to it. It was created, and then was given
other settings or finished a harvest, any number of times. At each of these calls the source may be
in any state and the flag may be up. -/
inductive Reached (source : Source σ) : Settings → Harvester → Prop
  | created (settings : Settings) (state : σ) :
      Reached source settings (Harvester.create source settings state).1
  | set {last : Settings} {h : Harvester} (hpast : Reached source last h) (settings : Settings)
      (s : Session σ) : Reached source settings (h.setSettings source settings s).1
  | ran {τ : Type} {last : Settings} {h h' : Harvester} (hpast : Reached source last h)
      (sink : Sink τ) (limit : ℕ) (s s' : Session σ) (state state' : τ)
      (result : Except Error Report)
      (hrun : h.harvestEach source sink limit s state = some (result, h', s', state')) :
      Reached source last h'

/-! The crosswalk of the last run -/

/-- A harvest changes nothing but the crosswalk that is bound. -/
theorem harvestEach_harvester {source : Source σ} {sink : Sink τ} {limit : ℕ} {h h' : Harvester}
    {s s' : Session σ} {state state' : τ} {result : Except Error Report}
    (hrun : h.harvestEach source sink limit s state = some (result, h', s', state')) :
    h' = { h with bound := h.crosswalkToUse.toOption } := by
  rcases harvestEach_cases source sink limit h s state with
    ⟨e, _, hresult, _⟩ | ⟨w, query, hw, hquery⟩
  · rw [hresult] at hrun
    injection hrun with hrun
    injection hrun with _ hrun
    injection hrun with hrun _
    exact hrun.symm
  · rw [harvestEach_eq source sink limit s state hw hquery, Option.map_eq_some_iff] at hrun
    obtain ⟨p, _, hp⟩ := hrun
    injection hp with _ hp
    injection hp with hp _
    rw [hw]
    exact hp.symm

/-- Settings that are the same in normal form change nothing. -/
theorem setSettings_same (source : Source σ) {settings : Settings} {h : Harvester}
    (s : Session σ) (hsame : h.settings = settings.normalize) :
    (h.setSettings source settings s).1 = h := by
  simp [Harvester.setSettings, ← hsame]

theorem setSettings_bound (source : Source σ) {settings : Settings} {h : Harvester}
    (s : Session σ) (hother : h.settings ≠ settings.normalize) :
    (h.setSettings source settings s).1.bound = none := by
  simp [Harvester.setSettings, hother]

theorem reached_settings {source : Source σ} {last : Settings} {h : Harvester}
    (hreached : Reached source last h) : h.settings = last.normalize := by
  induction hreached with
  | created settings state => rfl
  | set hpast settings s ih => rfl
  | ran hpast sink limit s s' state state' result hrun ih =>
    rw [harvestEach_harvester hrun]
    exact ih

theorem reached_coherent {source : Source σ} {last : Settings} {h : Harvester}
    (hreached : Reached source last h) : Coherent h := by
  induction hreached with
  | created settings state =>
    intro w hbound
    cases hbound
  | @set last h hpast settings s ih =>
    -- The same settings keep what is bound, and all others unbind it.
    by_cases hsame : h.settings = settings.normalize
    · rw [setSettings_same source s hsame]
      exact ih
    · intro w hbound
      rw [setSettings_bound source s hsame] at hbound
      cases hbound
  | @ran τ last h h' hpast sink limit s s' state state' result hrun ih =>
    rw [harvestEach_harvester hrun]
    intro w hbound
    change h.crosswalk = .ok w
    have huse : h.crosswalkToUse.toOption = some w := hbound
    rw [ih.crosswalkToUse] at huse
    cases hw : h.crosswalk with
    | error e => simp [hw, Except.toOption] at huse
    | ok w' =>
      simp only [hw, Except.toOption, Option.some.injEq] at huse
      rw [huse]

/-! Formats and name of the repository -/

/-- The answers do not depend on the state. -/
def Steady (source : Source σ) : Prop :=
  ∀ url state state', (source url state).answer = (source url state').answer

theorem resolve_steady {source : Source σ} (hsteady : Steady source) (host : Option String)
    (s s' : Session σ) :
    (Harvester.resolve source host s).1 = (Harvester.resolve source host s').1 := by
  cases host with
  | none => rfl
  | some host =>
    simp only [Harvester.resolve, Session.request]
    rw [hsteady (Request.metadataFormats host) s.state s'.state,
      hsteady (Request.identify host) _ (source (Request.metadataFormats host) s'.state).state]

theorem setSettings_resolved (source : Source σ) (settings : Settings) (h : Harvester)
    (s : Session σ) :
    let h' := (h.setSettings source settings s).1
    (h.settings.chosenHost? = h'.settings.chosenHost? ∧ h'.formats = h.formats ∧
        h'.provider = h.provider) ∨
      (h'.formats, h'.provider) = (Harvester.resolve source h'.settings.chosenHost? s).1 := by
  intro h'
  by_cases hhost : h.settings.chosenHost? = settings.normalize.chosenHost?
  · exact Or.inl ⟨hhost, by simp [h', Harvester.setSettings, hhost],
      by simp [h', Harvester.setSettings, hhost]⟩
  · right
    simp [h', Harvester.setSettings, hhost]

theorem reached_resolved {source : Source σ} (hsteady : Steady source) {last : Settings}
    {h : Harvester} (hreached : Reached source last h) (s : Session σ) :
    (h.formats, h.provider) = (Harvester.resolve source h.settings.chosenHost? s).1 := by
  induction hreached with
  | created settings state =>
    exact resolve_steady hsteady settings.normalize.chosenHost? ⟨state, false⟩ s
  | @set last h hpast settings s₀ ih =>
    rcases setSettings_resolved source settings h s₀ with ⟨hhost, hformats, hprovider⟩ | hnew
    · rw [hformats, hprovider, ih, hhost]
    · rw [hnew]
      exact resolve_steady hsteady _ s₀ s
  | @ran τ last h h' hpast sink limit s₀ s' state state' result hrun ih =>
    rw [harvestEach_harvester hrun]
    exact ih

/-- On a fixed source that does not tell a name, a new harvester has the formats in the answer. -/
theorem create_fixed {answers : String → Except Error String} {settings : Settings} {host : String}
    {formats : Formats} {e : Error} (hhost : settings.normalize.chosenHost? = some host)
    (hformats : Formats.ofAnswer (answers (Request.metadataFormats host)) = formats)
    (hname : answers (Request.identify host) = .error e) :
    Harvester.create (.fixed answers) settings () =
      ({ settings := settings.normalize, formats, provider := Repository.unknownName },
        ⟨(), false⟩) := by
  simp only [Harvester.create, hhost, Harvester.resolve, Session.request, Source.fixed, hformats,
    hname]
  rfl

/-! A harvester like a new one -/

/-- A harvester differs from a new one with the same settings only in the crosswalk that is bound. -/
theorem reached_eq_create {source : Source σ} (hsteady : Steady source) {last : Settings}
    {h : Harvester} (hreached : Reached source last h) (state : σ) :
    h = { (Harvester.create source last state).1 with bound := h.bound } := by
  have hsettings := reached_settings hreached
  have hnew := reached_resolved hsteady (.created last state) ⟨state, false⟩
  have hresolved := reached_resolved hsteady hreached ⟨state, false⟩
  rw [hsettings] at hresolved
  obtain ⟨hformats, hprovider⟩ := Prod.mk.inj (hresolved.trans hnew.symm)
  calc
    h = ⟨h.settings, h.formats, h.provider, h.bound⟩ := rfl
    _ = { (Harvester.create source last state).1 with bound := h.bound } := by
      rw [hsettings, hformats, hprovider]
      rfl

/-- A harvest depends on the crosswalk that is bound only through the crosswalk to use. -/
theorem harvestEach_bound {h : Harvester} {bound : Option Crosswalk}
    (huse : { h with bound }.crosswalkToUse = h.crosswalkToUse) (source : Source σ)
    (sink : Sink τ) (limit : ℕ) {s s' : Session σ} (hs : s.state = s'.state) (state : τ) :
    course source sink limit { h with bound } s state = course source sink limit h s' state ∧
      { h with bound }.harvestEach source sink limit s state =
        h.harvestEach source sink limit s' state := by
  have hsession : ({ s with aborted := false } : Session σ) = { s' with aborted := false } := by
    rw [hs]
  constructor
  · simp only [course, huse, hsession]
  · simp only [Harvester.harvestEach, huse, hsession]

/-- Whatever was done with a harvester, the crosswalk that is bound is the one its settings ask for.
Where the answers of the source are fixed, its settings, the name and the formats of its repository,
its schema, its crosswalk and its next harvest are those of a new harvester with the last settings.
The harvests agree in all requests, records and documents, in the result and in what is left. -/
theorem answers_as_new {source : Source σ} {last : Settings} {h : Harvester}
    (hreached : Reached source last h) :
    (∀ w, h.bound = some w → h.crosswalk = .ok w) ∧
      ∀ answers : String → Except Error String,
        (∀ url state, (source url state).answer = answers url) → ∀ state,
          let new := (Harvester.create source last state).1
          h.settings = new.settings ∧ h.provider = new.provider ∧ h.formats = new.formats ∧
            h.validate = new.validate ∧ h.crosswalk = new.crosswalk ∧
            ∀ {ρ τ : Type} (source' : Source ρ) (sink : Sink τ) (limit : ℕ) (s s' : Session ρ)
              (kept : τ), s.state = s'.state →
              course source' sink limit h s kept = course source' sink limit new s' kept ∧
                h.harvestEach source' sink limit s kept =
                  new.harvestEach source' sink limit s' kept := by
  have hcoherent := reached_coherent hreached
  refine ⟨hcoherent, ?_⟩
  intro answers hanswers state new
  have hsteady : Steady source := fun url state state' =>
    (hanswers url state).trans (hanswers url state').symm
  have heq : h = { new with bound := h.bound } := reached_eq_create hsteady hreached state
  have hnew : Coherent new := reached_coherent (.created last state)
  have hcrosswalk : h.crosswalk = new.crosswalk := by
    rw [heq]
    rfl
  have huse : { new with bound := h.bound }.crosswalkToUse = new.crosswalkToUse := by
    rw [← heq, hcoherent.crosswalkToUse, hnew.crosswalkToUse, hcrosswalk]
  refine ⟨?_, ?_, ?_, ?_, hcrosswalk, ?_⟩
  · rw [heq]
  · rw [heq]
  · rw [heq]
  · rw [heq]
    rfl
  · intro ρ τ source' sink limit s s' kept hs
    rw [heq]
    exact harvestEach_bound huse source' sink limit hs kept

/-! Settings that are the same in normal form, after a harvest -/

def formatsBody : String :=
  "<r><metadataFormat><metadataPrefix>p</metadataPrefix><schema>s</schema>" ++
    "</metadataFormat></r>"

/-- A repository that tells its formats and has one page, and no name. -/
def offering (url : String) : Except Error String :=
  if url = Request.metadataFormats "h" then .ok formatsBody
  else if url = keeperQuery.url then .ok goneBody
  else .error .malformedXml

theorem ofAnswer_formatsBody : Formats.ofAnswer (.ok formatsBody) = keeper.formats := by
  decide +kernel

theorem keeper_created : (Harvester.create (.fixed offering) keeper.settings ()).1 = keeper := by
  have hformats : Formats.ofAnswer (offering (Request.metadataFormats "h")) = keeper.formats := by
    rw [offering, if_pos rfl, ofAnswer_formatsBody]
  have hname : offering (Request.identify "h") = .error .malformedXml := by
    have hother : Request.identify "h" ≠ Request.metadataFormats "h" := by decide
    have hother' : Request.identify "h" ≠ keeperQuery.url := by decide
    rw [offering, if_neg hother, if_neg hother']
  rw [create_fixed (by decide) hformats hname]
  rfl

theorem offering_page : Page.ofAnswer (offering keeperQuery.url) = (gonePage, .noRecords) := by
  have hother : keeperQuery.url ≠ Request.metadataFormats "h" := by decide
  rw [offering, if_neg hother, if_pos rfl, ofAnswer_goneBody]

/-- The crosswalk stays bound, and the next harvest is that of a new harvester. -/
theorem keeper_as_new :
    let source : Source Unit := .fixed offering
    let last : Settings := { keeper.settings with logoUrl := some " " }
    let h : Harvester := { keeper with bound := some keeperCrosswalk }
    Reached source last h ∧ h.crosswalk = .ok keeperCrosswalk ∧
      h.harvestEach source .collect 4 ⟨(), true⟩ [] =
        (Harvester.create source last ()).1.harvestEach source .collect 4 ⟨(), false⟩ [] := by
  intro source last h
  have hcreated : Reached source keeper.settings keeper := by
    have hnew : Reached source keeper.settings (Harvester.create source keeper.settings ()).1 :=
      .created keeper.settings ()
    rwa [keeper_created] at hnew
  have hran : Reached source keeper.settings h :=
    .ran hcreated .collect 4 ⟨(), true⟩ _ [] _ _ (keeper_harvest offering_page)
  have hreached : Reached source last h := by
    have hsame : h.settings = last.normalize := by decide
    have hset := Reached.set hran last ⟨(), false⟩
    rwa [setSettings_same source _ hsame] at hset
  obtain ⟨hbound, hnew⟩ := answers_as_new hreached
  obtain ⟨_, _, _, _, _, hrun⟩ := hnew offering (fun _ _ => rfl) ()
  refine ⟨hreached, hbound keeperCrosswalk rfl, ?_⟩
  exact (hrun source .collect 4 ⟨(), true⟩ ⟨(), false⟩ [] rfl).2

end Harvest.Renewal
