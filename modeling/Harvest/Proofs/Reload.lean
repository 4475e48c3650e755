import Harvest.Proofs.Renewal

/-!
What a harvester asks for when it is given other settings. Formats and name of a repository go with
its host. They are asked for when the host changes and at no other time, however long ago the host
was asked and whatever it answered then. Another prefix or mode calls for a rebuild too, but of this
only the crosswalk is unbound, and the formats are those of an earlier time.
-/
namespace Harvest.Reload

open Renewal Account

variable {σ : Type}

/-- The formats that the host answers with in this state. Without a host there are none. -/
def offered (source : Source σ) (host : Option String) (state : σ) : Formats :=
  match host with
  | none => {}
  | some host => Formats.ofAnswer (source (Request.metadataFormats host) state).answer

/-- The addresses at which a host tells its formats and its name. -/
def addresses : Option String → List String
  | none => []
  | some host => [Request.metadataFormats host, Request.identify host]

/-- The requests made on the step to other settings, in order. -/
def requests (source : Source σ) (settings : Settings) (h : Harvester) (s : Session σ) :
    List String :=
  (h.setSettings source.recorded settings ⟨([], s.state), s.aborted⟩).2.state.1.reverse

/-- Settings given one after the other. -/
def along (source : Source σ) : List Settings → Harvester → Session σ → Harvester × Session σ
  | [], h, s => (h, s)
  | settings :: more, h, s =>
    let (h, s) := h.setSettings source settings s
    along source more h s

/-- The rule for a step to other settings. Where it calls for a rebuild, the formats are those that
the new host answers with at this call, and no crosswalk stays bound. Where it does not, nothing is
asked for, and formats and name stay. -/
structure Reloads (source : Source σ) (settings : Settings) (h : Harvester) (s : Session σ) :
    Prop where
  formats : h.settings.requiresRebuild settings.normalize = true →
    (h.setSettings source settings s).1.formats =
      offered source settings.normalize.chosenHost? s.state
  unbound : h.settings.requiresRebuild settings.normalize = true →
    (h.setSettings source settings s).1.bound = none
  still : h.settings.requiresRebuild settings.normalize = false →
    requests source settings h s = [] ∧
      (h.setSettings source settings s).1.formats = h.formats ∧
      (h.setSettings source settings s).1.provider = h.provider

/-! Asking a host -/

theorem resolve_formats (source : Source σ) (host : Option String) (s : Session σ) :
    (Harvester.resolve source host s).1.1 = offered source host s.state := by
  cases host with
  | none => rfl
  | some host => rfl

theorem resolve_recorded (source : Source σ) (host : Option String) (s : Session σ) :
    (Harvester.resolve source.recorded host ⟨([], s.state), s.aborted⟩).2.state.1.reverse =
      addresses host := by
  cases host with
  | none => rfl
  | some host => rfl

/-! One step -/

section

variable {settings : Settings} {h : Harvester}

/-- A harvester whose host stays asks for nothing. -/
theorem setSettings_of_host (source : Source σ) (s : Session σ)
    (hhost : h.settings.chosenHost? = settings.normalize.chosenHost?) :
    (h.setSettings source settings s).1.formats = h.formats ∧
      (h.setSettings source settings s).1.provider = h.provider ∧
      (h.setSettings source settings s).2 = s := by
  simp [Harvester.setSettings, hhost]

/-- Another host is asked at once. -/
theorem setSettings_of_other (source : Source σ) (s : Session σ)
    (hother : h.settings.chosenHost? ≠ settings.normalize.chosenHost?) :
    (h.setSettings source settings s).1.formats =
        (Harvester.resolve source settings.normalize.chosenHost? s).1.1 ∧
      (h.setSettings source settings s).2 =
        (Harvester.resolve source settings.normalize.chosenHost? s).2 := by
  simp [Harvester.setSettings, hother]

theorem requests_of_host (source : Source σ) (s : Session σ)
    (hhost : h.settings.chosenHost? = settings.normalize.chosenHost?) :
    requests source settings h s = [] := by
  obtain ⟨_, _, hsession⟩ := setSettings_of_host source.recorded ⟨([], s.state), s.aborted⟩ hhost
  rw [requests, hsession]
  rfl

theorem requests_of_other (source : Source σ) (s : Session σ)
    (hother : h.settings.chosenHost? ≠ settings.normalize.chosenHost?) :
    requests source settings h s = addresses settings.normalize.chosenHost? := by
  obtain ⟨_, hsession⟩ := setSettings_of_other source.recorded ⟨([], s.state), s.aborted⟩ hother
  rw [requests, hsession]
  exact resolve_recorded source _ s

theorem formats_of_other (source : Source σ) (s : Session σ)
    (hother : h.settings.chosenHost? ≠ settings.normalize.chosenHost?) :
    (h.setSettings source settings s).1.formats =
      offered source settings.normalize.chosenHost? s.state := by
  obtain ⟨hformats, _⟩ := setSettings_of_other source s hother
  rw [hformats]
  exact resolve_formats source _ s

/-- A change of the host calls for a rebuild. -/
theorem host_of_still (hstill : h.settings.requiresRebuild settings.normalize = false) :
    h.settings.chosenHost? = settings.normalize.chosenHost? := by
  simp only [Settings.requiresRebuild, Bool.or_eq_false_iff, bne_eq_false_iff_eq] at hstill
  exact hstill.1.1

/-- Equal settings call for no rebuild, so that a rebuild unbinds what was bound. -/
theorem bound_of_rebuild (source : Source σ) (s : Session σ)
    (hrebuild : h.settings.requiresRebuild settings.normalize = true) :
    (h.setSettings source settings s).1.bound = none := by
  apply setSettings_bound source s
  intro hsame
  rw [← hsame] at hrebuild
  simp [Settings.requiresRebuild] at hrebuild

/-- The rule is broken only where the host stays and its answer is no longer what it was. -/
theorem reloads_iff (source : Source σ) (s : Session σ) :
    Reloads source settings h s ↔
      (h.settings.requiresRebuild settings.normalize = true →
        h.settings.chosenHost? = settings.normalize.chosenHost? →
        h.formats = offered source settings.normalize.chosenHost? s.state) := by
  constructor
  · intro hreloads hrebuild hhost
    obtain ⟨hformats, _⟩ := setSettings_of_host source s hhost
    rw [← hformats]
    exact hreloads.formats hrebuild
  · intro hfresh
    refine ⟨fun hrebuild => ?_, bound_of_rebuild source s, fun hstill => ?_⟩
    · by_cases hhost : h.settings.chosenHost? = settings.normalize.chosenHost?
      · obtain ⟨hformats, _⟩ := setSettings_of_host source s hhost
        rw [hformats]
        exact hfresh hrebuild hhost
      · exact formats_of_other source s hhost
    · have hhost := host_of_still hstill
      obtain ⟨hformats, hprovider, _⟩ := setSettings_of_host source s hhost
      exact ⟨requests_of_host source s hhost, hformats, hprovider⟩

end

/-! Many steps -/

/-- As long as the host stays, what it once answered stays too. -/
theorem along_of_host (source : Source σ) (more : List Settings) (h : Harvester) (s : Session σ)
    (hhost : ∀ settings ∈ more, settings.normalize.chosenHost? = h.settings.chosenHost?) :
    (along source more h s).1.formats = h.formats ∧
      (along source more h s).1.provider = h.provider ∧ (along source more h s).2 = s := by
  induction more generalizing h s with
  | nil => exact ⟨rfl, rfl, rfl⟩
  | cons settings more ih =>
    have hfirst : settings.normalize.chosenHost? = h.settings.chosenHost? :=
      hhost settings List.mem_cons_self
    obtain ⟨hformats, hprovider, hsession⟩ := setSettings_of_host source s hfirst.symm
    have hrest : ∀ later ∈ more, later.normalize.chosenHost? =
        (h.setSettings source settings s).1.settings.chosenHost? := by
      intro later hlater
      rw [hhost later (List.mem_cons_of_mem _ hlater), ← hfirst]
      rfl
    obtain ⟨hformats', hprovider', hsession'⟩ := ih _ (h.setSettings source settings s).2 hrest
    exact ⟨hformats'.trans hformats, hprovider'.trans hprovider, hsession'.trans hsession⟩

/-- The formats are loaded when the host changes: then the new host is asked for its formats and its
name, and the formats are those in its answer. As long as the host stays, nothing is asked for and
formats and name stay. A rebuild leaves no crosswalk bound, and without one the host stays. So the
rule for a step holds unless a rebuild is called for at the same host, which answers otherwise by
now. -/
theorem formats_loaded_with_host (source : Source σ) (settings : Settings) (h : Harvester)
    (s : Session σ) :
    let host := settings.normalize.chosenHost?
    let h' := (h.setSettings source settings s).1
    (h.settings.chosenHost? ≠ host → Reloads source settings h s ∧
        requests source settings h s = addresses host ∧
        h'.formats = offered source host s.state) ∧
      (h.settings.chosenHost? = host → requests source settings h s = [] ∧
        h'.formats = h.formats ∧ h'.provider = h.provider) ∧
      (h.settings.requiresRebuild settings.normalize = true → h'.bound = none) ∧
      (h.settings.requiresRebuild settings.normalize = false → Reloads source settings h s) ∧
      (Reloads source settings h s ↔
        (h.settings.requiresRebuild settings.normalize = true → h.settings.chosenHost? = host →
          h.formats = offered source host s.state)) ∧
      ∀ more : List Settings,
        (∀ later ∈ more, later.normalize.chosenHost? = h.settings.chosenHost?) →
        (along source more h s).1.formats = h.formats ∧
          (along source more h s).1.provider = h.provider ∧ (along source more h s).2 = s := by
  intro host h'
  have hiff : Reloads source settings h s ↔
      (h.settings.requiresRebuild settings.normalize = true → h.settings.chosenHost? = host →
        h.formats = offered source host s.state) := reloads_iff source s
  refine ⟨fun hother => ?_, fun hhost => ?_, bound_of_rebuild source s, fun hstill => ?_, hiff,
    fun more => along_of_host source more h s⟩
  · exact ⟨hiff.mpr fun _ hhost => absurd hhost hother, requests_of_other source s hother,
      formats_of_other source s hother⟩
  · obtain ⟨hformats, hprovider, _⟩ := setSettings_of_host source s hhost
    exact ⟨requests_of_host source s hhost, hformats, hprovider⟩
  · refine hiff.mpr fun hrebuild => ?_
    rw [hstill] at hrebuild
    cases hrebuild

/-! A repository that was not there at first -/

/-- Other settings for the harvest of a repository that offers `p`. -/
def otherHost : Settings := { keeper.settings with hostUrl := some "g" }

def otherPrefix : Settings := { keeper.settings with metadataPrefix := some "q" }

/-- The other host is asked, and the crosswalk of the first one is unbound. -/
theorem keeper_moves :
    let h : Harvester := { keeper with bound := some keeperCrosswalk }
    let s : Session Unit := ⟨(), true⟩
    h.settings.chosenHost? ≠ otherHost.normalize.chosenHost? ∧
      h.settings.requiresRebuild otherHost.normalize = true ∧
      requests .unreachable otherHost h s =
        ["g?verb=ListMetadataFormats", "g?verb=Identify"] ∧
      (h.setSettings .unreachable otherHost s).1.formats = {} ∧
      (h.setSettings .unreachable otherHost s).1.bound = none := by
  intro h s
  have hother : h.settings.chosenHost? ≠ otherHost.normalize.chosenHost? := by decide
  have hrebuild : h.settings.requiresRebuild otherHost.normalize = true := by decide
  obtain ⟨hloaded, _, hunbound, _⟩ := formats_loaded_with_host .unreachable otherHost h s
  obtain ⟨_, hrequests, hformats⟩ := hloaded hother
  refine ⟨hother, hrebuild, ?_, hformats, hunbound hrebuild⟩
  rw [hrequests]
  decide

/-- A repository that answers from the third request on. -/
def waking : Source ℕ := fun url made =>
  { answer := if made < 2 then .error (.retriesExhausted 3 "unreachable") else offering url,
    state := made + 1 }

theorem waking_created :
    Harvester.create waking keeper.settings 0 =
      ({ settings := keeper.settings, formats := {}, provider := Repository.unknownName },
        ⟨2, false⟩) := by
  rfl

theorem waking_offered : offered waking otherPrefix.normalize.chosenHost? 2 = keeper.formats := by
  have hanswer : (waking (Request.metadataFormats "h") 2).answer = .ok formatsBody := by
    rw [waking, if_neg (by decide), offering, if_pos rfl]
  change Formats.ofAnswer (waking (Request.metadataFormats "h") 2).answer = keeper.formats
  rw [hanswer, ofAnswer_formatsBody]

/-- The rule is not kept by every harvester: one that was created before its repository could be
reached stays without formats when it is given another prefix. -/
theorem other_prefix_keeps_formats :
    ¬ ∀ (source : Source ℕ) (last settings : Settings) (h : Harvester) (s : Session ℕ),
      Reached source last h → Reloads source settings h s := by
  intro hall
  have hreached : Reached waking keeper.settings
      { settings := keeper.settings, formats := {}, provider := Repository.unknownName } := by
    have hnew : Reached waking keeper.settings (Harvester.create waking keeper.settings 0).1 :=
      .created keeper.settings 0
    rwa [waking_created] at hnew
  have hreloads := hall waking keeper.settings otherPrefix _ ⟨2, false⟩ hreached
  have hfresh := (reloads_iff waking ⟨2, false⟩).mp hreloads (by decide) (by decide)
  rw [waking_offered] at hfresh
  exact absurd hfresh (by decide)

end Harvest.Reload
