import Harvest.Formats
import Harvest.Proofs.Lookup
import Harvest.Proofs.Tidiness
import Mathlib.Data.List.Induction

/-!
The prefixes of a repository and their validation. However the formats were given, each prefix is
kept once and the prefixes are in order, so that what is listed in an error is what validation
goes by. A repository's own formats have no blank prefixes, and there every prefix that is listed
is valid.
-/
namespace Harvest.Prefixes

open Xml Lookup

/-! Formats in order -/

def Ordered (entries : List (String × String)) : Prop := entries.Pairwise fun a b => a.1 < b.1

theorem mem_insertEntry {key url : String} {entries : List (String × String)}
    {entry : String × String} (h : entry ∈ Formats.insertEntry key url entries) :
    entry = (key, url) ∨ entry ∈ entries := by
  induction entries with
  | nil => exact .inl (List.mem_singleton.mp h)
  | cons first rest ih =>
    simp only [Formats.insertEntry] at h
    split at h
    · exact List.mem_cons.mp h
    · split at h
      · exact (List.mem_cons.mp h).imp_right (List.mem_cons_of_mem _)
      · rcases List.mem_cons.mp h with rfl | h
        · exact .inr List.mem_cons_self
        · exact (ih h).imp_right (List.mem_cons_of_mem _)

theorem ordered_insertEntry (key url : String) {entries : List (String × String)}
    (h : Ordered entries) : Ordered (Formats.insertEntry key url entries) := by
  induction entries with
  | nil => exact List.pairwise_singleton _ _
  | cons first rest ih =>
    obtain ⟨hfirst, hrest⟩ := List.pairwise_cons.mp h
    simp only [Formats.insertEntry]
    split
    · next hlt =>
      refine List.pairwise_cons.mpr ⟨fun entry hentry => ?_, h⟩
      rcases List.mem_cons.mp hentry with rfl | hentry
      · exact hlt
      · exact String.lt_trans hlt (hfirst entry hentry)
    · next hnot =>
      split
      · next heq =>
        rw [beq_iff_eq] at heq
        exact List.pairwise_cons.mpr ⟨fun entry hentry => heq ▸ hfirst entry hentry, hrest⟩
      · next hne =>
        rw [beq_iff_eq] at hne
        refine List.pairwise_cons.mpr ⟨fun entry hentry => ?_, ih hrest⟩
        rcases mem_insertEntry hentry with rfl | hentry
        · exact Std.lt_of_le_of_ne (String.not_lt.mp hnot) (Ne.symm hne)
        · exact hfirst entry hentry

/-- The URL of a prefix is the one inserted for it, and that of any other prefix stays. -/
theorem lookup_insertEntry (key url : String) (entries : List (String × String)) (k : String) :
    (Formats.insertEntry key url entries).lookup k =
      if k = key then some url else entries.lookup k := by
  induction entries with
  | nil => exact lookup_cons (key, url) [] k
  | cons first rest ih =>
    simp only [Formats.insertEntry]
    split
    · exact lookup_cons (key, url) (first :: rest) k
    · split
      · next heq =>
        rw [beq_iff_eq] at heq
        simp only [lookup_cons, heq]
        split <;> rfl
      · next hne =>
        rw [beq_iff_eq] at hne
        simp only [lookup_cons, ih]
        by_cases hk : k = first.1
        · rw [if_pos hk, if_pos hk, if_neg (hk ▸ Ne.symm hne)]
        · rw [if_neg hk, if_neg hk]

theorem ofPairs_append_single (pairs : List (String × String)) (pair : String × String) :
    Formats.ofPairs (pairs ++ [pair]) = (Formats.ofPairs pairs).insert pair.1 pair.2 := by
  rw [Formats.ofPairs, List.foldl_append]
  rfl

theorem ordered_ofPairs (pairs : List (String × String)) :
    Ordered (Formats.ofPairs pairs).entries := by
  induction pairs using List.reverseRecOn with
  | nil => exact .nil
  | append_singleton pairs pair ih =>
    rw [ofPairs_append_single]
    exact ordered_insertEntry _ _ ih

/-- Of the URLs given for a prefix the last one counts. -/
theorem schemaUrl?_ofPairs (pairs : List (String × String)) (k : String) :
    (Formats.ofPairs pairs).schemaUrl? k = pairs.reverse.lookup k := by
  induction pairs using List.reverseRecOn with
  | nil => rfl
  | append_singleton pairs pair ih =>
    rw [ofPairs_append_single, List.reverse_append, List.reverse_singleton, List.singleton_append,
      lookup_cons, ← ih]
    exact lookup_insertEntry _ _ _ _

theorem lookup_eq_some {entries : List (String × String)} (h : Ordered entries) {k url : String} :
    entries.lookup k = some url ↔ (k, url) ∈ entries := by
  induction entries with
  | nil => simp
  | cons first rest ih =>
    obtain ⟨hfirst, hrest⟩ := List.pairwise_cons.mp h
    rw [lookup_cons, List.mem_cons, ← ih hrest]
    split
    · next heq =>
      subst heq
      have hnot : rest.lookup first.1 ≠ some url := fun hmem =>
        String.lt_irrefl first.1 (hfirst (first.1, url) ((ih hrest).mp hmem))
      simp [Prod.ext_iff, hnot, eq_comm]
    · next hne => simp [Prod.ext_iff, hne]

/-! The prefixes that are listed -/

theorem mem_supported {f : Formats} (h : Ordered f.entries) {k : String} :
    k ∈ f.supported ↔ ∃ url, f.schemaUrl? k = some url ∧ (Schema.ofUrl? url).isSome = true := by
  simp only [Formats.supported, Formats.schemaUrl?, lookup_eq_some h, List.mem_map,
    List.mem_filter, Prod.exists]
  constructor
  · rintro ⟨_, url, hmem, rfl⟩
    exact ⟨url, hmem⟩
  · rintro ⟨url, hmem⟩
    exact ⟨k, url, hmem, rfl⟩

theorem supported_increasing {f : Formats} (h : Ordered f.entries) :
    f.supported.Pairwise (· < ·) :=
  List.pairwise_map.mpr (h.filter _)

/-! Validation -/

/-- A text is given and holds more than blanks. -/
def Given (text : Option String) (s : String) : Prop := text = some s ∧ Text.blank s = false

/-- A host and a prefix are given, and the repository has that URL for the prefix. -/
def Aimed (f : Formats) (host chosen : Option String) (url : String) : Prop :=
  (∃ h, Given host h) ∧ ∃ p, Given chosen p ∧ f.schemaUrl? p = some url

theorem given_iff {text : Option String} {s : String} :
    text.filter (fun t => !Text.blank t) = some s ↔ Given text s := by
  rw [Option.filter_eq_some_iff, Bool.not_eq_true', Given]

variable {f : Formats} {host chosen : Option String} {url : String}

theorem Aimed.unique {other : String} (h : Aimed f host chosen url)
    (hother : Aimed f host chosen other) : url = other := by
  obtain ⟨_, p, ⟨rfl, _⟩, hurl⟩ := h
  obtain ⟨_, q, ⟨hq, _⟩, hother⟩ := hother
  rw [← Option.some.inj hq, hurl] at hother
  exact Option.some.inj hother

/-- What validation can come to. -/
inductive Verdict (f : Formats) (host chosen : Option String) (anySchema : Bool) :
    Except Error (Option Schema) → Prop
  | schema {url : String} {schema : Schema} (haimed : Aimed f host chosen url)
      (hschema : Schema.ofUrl? url = some schema) :
      Verdict f host chosen anySchema (.ok (some schema))
  | noSchema {url : String} (haimed : Aimed f host chosen url) (hschema : Schema.ofUrl? url = none)
      (hany : anySchema = true) : Verdict f host chosen anySchema (.ok none)
  | error (message : String)
      (hunfit : ∀ url, Aimed f host chosen url → Schema.ofUrl? url = none ∧ anySchema = false) :
      Verdict f host chosen anySchema (.error (.settings message f.supported))

theorem verdict_validate (f : Formats) (host chosen : Option String) (anySchema : Bool) :
    Verdict f host chosen anySchema (f.validate host chosen anySchema) := by
  unfold Formats.validate
  dsimp only
  -- The checks one after the other. Until the last one, an error means that nothing is aimed at.
  split
  · next hchosen =>
    refine .error _ fun url ⟨_, p, hp, _⟩ => ?_
    rw [given_iff.mpr hp] at hchosen
    cases hchosen
  · next p hp =>
    have hnot (hnone : f.schemaUrl? p = none) (url : String) : ¬ Aimed f host chosen url := by
      rintro ⟨_, q, hq, hurl⟩
      have heq : p = q := Option.some.inj (hp.symm.trans (given_iff.mpr hq))
      rw [← heq, hnone] at hurl
      cases hurl
    split
    · next hhost =>
      refine .error _ fun url ⟨⟨h, hh⟩, _⟩ => ?_
      rw [given_iff.mpr hh] at hhost
      cases hhost
    · next hhost =>
      rw [Option.isNone_iff_eq_none] at hhost
      obtain ⟨h, hh⟩ := Option.ne_none_iff_exists'.mp hhost
      split
      · next hempty =>
        have hnone : f.schemaUrl? p = none := by
          rw [Formats.schemaUrl?, List.isEmpty_iff.mp hempty, List.lookup_nil]
        exact .error _ fun url haimed => absurd haimed (hnot hnone url)
      · split
        · next hnone => exact .error _ fun url haimed => absurd haimed (hnot hnone url)
        · next url hurl =>
          have haimed : Aimed f host chosen url :=
            ⟨⟨h, given_iff.mp hh⟩, p, given_iff.mp hp, hurl⟩
          split
          · next schema hschema => exact .schema haimed hschema
          · next hschema =>
            split
            · next hany => exact .noSchema haimed hschema hany
            · next hany =>
              refine .error _ fun other hother => ?_
              rw [← haimed.unique hother]
              exact ⟨hschema, Bool.eq_false_iff.mpr hany⟩

section

variable {anySchema : Bool} {r : Except Error (Option Schema)}

theorem Verdict.schema_iff (h : Verdict f host chosen anySchema r) (schema : Schema) :
    r = .ok (some schema) ↔ ∃ url, Aimed f host chosen url ∧ Schema.ofUrl? url = some schema := by
  constructor
  · rintro rfl
    cases h with
    | schema haimed hschema => exact ⟨_, haimed, hschema⟩
  · rintro ⟨url, haimed, hurl⟩
    cases h with
    | schema hother hschema => rw [← hurl, haimed.unique hother, hschema]
    | noSchema hother hschema =>
      rw [haimed.unique hother, hschema] at hurl
      cases hurl
    | error _ hunfit =>
      rw [(hunfit url haimed).1] at hurl
      cases hurl

theorem Verdict.noSchema_iff (h : Verdict f host chosen anySchema r) :
    r = .ok none ↔
      ∃ url, Aimed f host chosen url ∧ Schema.ofUrl? url = none ∧ anySchema = true := by
  constructor
  · rintro rfl
    cases h with
    | noSchema haimed hschema hany => exact ⟨_, haimed, hschema, hany⟩
  · rintro ⟨url, haimed, hurl, hany⟩
    cases h with
    | schema hother hschema =>
      rw [haimed.unique hother, hschema] at hurl
      cases hurl
    | noSchema => rfl
    | error _ hunfit =>
      rw [(hunfit url haimed).2] at hany
      cases hany

theorem Verdict.listed (h : Verdict f host chosen anySchema r) {e : Error} (he : r = .error e) :
    ∃ message, e = .settings message f.supported := by
  subst he
  cases h with
  | error message => exact ⟨message, rfl⟩

end

/-- Validation gives exactly the schema that host and prefix lead to, or none where that is allowed
and they lead to a URL of no schema. An error lists, in order, the prefixes that lead to one. -/
structure Exact (f : Formats) : Prop where
  schema : ∀ host chosen anySchema schema, f.validate host chosen anySchema = .ok (some schema) ↔
    ∃ url, Aimed f host chosen url ∧ Schema.ofUrl? url = some schema
  noSchema : ∀ host chosen anySchema, f.validate host chosen anySchema = .ok none ↔
    ∃ url, Aimed f host chosen url ∧ Schema.ofUrl? url = none ∧ anySchema = true
  error : ∀ host chosen anySchema e, f.validate host chosen anySchema = .error e →
    ∃ message, e = .settings message f.supported
  increasing : f.supported.Pairwise (· < ·)
  listed : ∀ k, k ∈ f.supported ↔
    ∃ url, f.schemaUrl? k = some url ∧ (Schema.ofUrl? url).isSome = true

theorem exact_of_ordered (h : Ordered f.entries) : Exact f where
  schema host chosen anySchema := (verdict_validate f host chosen anySchema).schema_iff
  noSchema host chosen anySchema := (verdict_validate f host chosen anySchema).noSchema_iff
  error host chosen anySchema _ := (verdict_validate f host chosen anySchema).listed
  increasing := supported_increasing h
  listed _ := mem_supported h

/-! The formats of a repository -/

/-- The element offers records under the prefix, in the schema of the URL. -/
def Offers (e : Element) (k url : String) : Prop :=
  e.name = "metadataFormat" ∧ e.childLeadText? "metadataPrefix" = some k ∧
    e.childLeadText? "schema" = some url

/-- The last element to offer records under the prefix has them in the schema of the URL. -/
def LastOffers (elements : List Element) (k url : String) : Prop :=
  ∃ before e after, elements = before ++ e :: after ∧ Offers e k url ∧
    ∀ later ∈ after, ∀ other, ¬ Offers later k other

/-- The prefix and URL of an element that offers records. -/
def offer? (e : Element) : Option (String × String) :=
  if e.name == "metadataFormat" then Formats.pairOfElement e else none

theorem offer?_eq_some_iff {e : Element} {k url : String} :
    offer? e = some (k, url) ↔ Offers e k url := by
  rw [offer?, Offers]
  split
  · next hname => simp [beq_iff_eq.mp hname, Formats.pairOfElement, Option.bind_eq_some_iff]
  · next hname => simp [beq_iff_eq.not.mp hname]

theorem ofElement_eq (root : Element) :
    Formats.ofElement root = Formats.ofPairs (root.everywhere.filterMap offer?) := by
  rw [Formats.ofElement, List.filterMap_filter]
  rfl

theorem lastOffers_append_single (elements : List Element) (e : Element) (k url : String) :
    LastOffers (elements ++ [e]) k url ↔
      Offers e k url ∨ LastOffers elements k url ∧ ∀ other, ¬ Offers e k other := by
  constructor
  · rintro ⟨before, e', after, heq, hoffers, hlater⟩
    obtain rfl | ⟨init, last, rfl⟩ := List.eq_nil_or_concat' after
    · obtain ⟨_, hsingle⟩ := List.append_inj' heq rfl
      exact .inl (List.singleton_inj.mp hsingle ▸ hoffers)
    · rw [← List.cons_append, ← List.append_assoc] at heq
      obtain ⟨rfl, hsingle⟩ := List.append_inj' heq rfl
      rw [List.singleton_inj.mp hsingle]
      exact .inr ⟨⟨before, e', init, rfl, hoffers, fun later hmem =>
        hlater later (List.mem_append_left _ hmem)⟩,
        hlater last (List.mem_append_right _ List.mem_cons_self)⟩
  · rintro (hoffers | ⟨⟨before, e', after, rfl, hoffers, hlater⟩, hnot⟩)
    · exact ⟨elements, e, [], rfl, hoffers, nofun⟩
    · refine ⟨before, e', after ++ [e], by simp, hoffers, fun later hmem => ?_⟩
      rcases List.mem_append.mp hmem with hmem | hmem
      · exact hlater later hmem
      · rw [List.mem_singleton.mp hmem]
        exact hnot

/-- Looking a prefix up from the end finds the last element to offer it. -/
theorem lookup_offers (elements : List Element) (k url : String) :
    (elements.filterMap offer?).reverse.lookup k = some url ↔ LastOffers elements k url := by
  induction elements using List.reverseRecOn with
  | nil => simp [LastOffers]
  | append_singleton elements e ih =>
    rw [List.filterMap_append, List.reverse_append, lastOffers_append_single, ← ih]
    simp only [← offer?_eq_some_iff]
    cases hoffer : offer? e with
    | none => simp [hoffer]
    | some pair =>
      have hsingle : ([e].filterMap offer?).reverse = [pair] := by simp [hoffer]
      rw [hsingle, List.singleton_append, lookup_cons]
      by_cases hk : k = pair.1
      · simp [hk, Prod.ext_iff]
      · simp [hk, Prod.ext_iff, Ne.symm hk]

/-- A prefix that is offered is not blank. -/
theorem Offers.not_blank {e : Element} {k url : String} (h : Offers e k url) :
    Text.blank k = false := by
  obtain ⟨_, hk, _⟩ := h
  obtain ⟨child, _, hlead⟩ := Option.bind_eq_some_iff.mp hk
  obtain ⟨c, hfirst, hc⟩ := (Tidiness.tidy_leadText hlead).first
  exact List.all_eq_false.mpr ⟨c, List.mem_of_mem_head? hfirst, by simp [hc]⟩

/-- A prefix in the list of an error is valid for every host. -/
def Advises (f : Formats) : Prop :=
  ∀ host chosen anySchema message listed,
    f.validate host chosen anySchema = .error (.settings message listed) →
    ∀ k ∈ listed, ∀ host', Text.blank host' = false → ∀ anySchema',
      ∃ schema, f.validate (some host') (some k) anySchema' = .ok (some schema)

theorem advises_of_exact (h : Exact f)
    (hblank : ∀ k url, f.schemaUrl? k = some url → Text.blank k = false) : Advises f := by
  intro host chosen anySchema message listed herror k hk host' hhost anySchema'
  obtain ⟨_, heq⟩ := h.error _ _ _ _ herror
  obtain ⟨_, rfl⟩ := Error.settings.inj heq
  obtain ⟨url, hurl, hsome⟩ := (h.listed k).mp hk
  obtain ⟨schema, hschema⟩ := Option.isSome_iff_exists.mp hsome
  have haimed : Aimed f (some host') (some k) url :=
    ⟨⟨host', rfl, hhost⟩, k, ⟨rfl, hblank k url hurl⟩, hurl⟩
  exact ⟨schema, (h.schema _ _ _ _).mpr ⟨url, haimed, hschema⟩⟩

/-- Validation is exact however the formats were given, of which the last counts for a prefix. A
repository's formats are those that the elements of its answer offer, and what is listed in an
error about them is valid. -/
theorem prefixes_validated :
    (∀ pairs, Exact (Formats.ofPairs pairs) ∧
      ∀ k, (Formats.ofPairs pairs).schemaUrl? k = pairs.reverse.lookup k) ∧
    ∀ body f, Formats.parse body = .ok f →
      Exact f ∧ Advises f ∧ ∃ root, Xml.parse? body = some root ∧
        ∀ k url, f.schemaUrl? k = some url ↔ LastOffers root.everywhere k url := by
  have hexact (pairs : List (String × String)) : Exact (Formats.ofPairs pairs) :=
    exact_of_ordered (ordered_ofPairs pairs)
  refine ⟨fun pairs => ⟨hexact pairs, schemaUrl?_ofPairs pairs⟩, fun body f hparse => ?_⟩
  rw [Formats.parse] at hparse
  split at hparse
  · next root hroot =>
    obtain rfl := Except.ok.inj hparse
    have hoffers (k url : String) : (Formats.ofElement root).schemaUrl? k = some url ↔
        LastOffers root.everywhere k url := by
      rw [ofElement_eq, schemaUrl?_ofPairs, lookup_offers]
    have hblank (k url : String) (hurl : (Formats.ofElement root).schemaUrl? k = some url) :
        Text.blank k = false := by
      obtain ⟨_, _, _, _, h, _⟩ := (hoffers k url).mp hurl
      exact h.not_blank
    have hparsed : Exact (Formats.ofElement root) := hexact _
    exact ⟨hparsed, advises_of_exact hparsed hblank, root, hroot, hoffers⟩
  · cases hparse

def repeatedBody : String :=
  "<r><metadataFormat><metadataPrefix>a</metadataPrefix><schema>x</schema></metadataFormat>" ++
    "<metadataFormat><metadataPrefix>a</metadataPrefix><schema>isotc211.org/2005/gmd</schema>" ++
    "</metadataFormat></r>"

def repeated : Formats := ⟨[("a", "isotc211.org/2005/gmd")]⟩

theorem repeated_prefix_advised : Formats.parse repeatedBody = .ok repeated ∧
    repeated.validate (some "h") (some "b") false =
      .error (.settings "Metadata prefix 'b' is not offered by the repository" ["a"]) ∧
    ∃ schema, repeated.validate (some "h") (some "a") false = .ok (some schema) := by
  have hparse : Formats.parse repeatedBody = .ok repeated := by decide +kernel
  have herror : repeated.validate (some "h") (some "b") false =
      .error (.settings "Metadata prefix 'b' is not offered by the repository" ["a"]) := by
    decide +kernel
  obtain ⟨_, hadvises, _⟩ := prefixes_validated.2 _ _ hparse
  exact ⟨hparse, herror, hadvises _ _ _ _ _ herror "a" List.mem_cons_self "h" (by decide) false⟩

end Harvest.Prefixes
