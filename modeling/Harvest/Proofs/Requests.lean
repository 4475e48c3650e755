import Harvest.Request
import Harvest.Proofs.Queries

/-!
What the URLs of requests say. Behind the address of the host stands a query that is decoded to the
arguments of the request, as they were given. So two requests to one host have the same URL only if
they ask for the same.
-/
namespace Harvest.Requests

open Text Queries Request

/-- What stands between the address of a host and a query. -/
def separator (host : String) : String := if host.toList.contains '?' then "&" else "?"

/-- An argument that is there; an empty one is not. -/
def given (value : Option String) : Option String := value.filter fun v => !v.isEmpty

def optional (name : String) (value : Option String) : List (String × String) :=
  ((given value).map fun v => (name, v)).toList

/-- The arguments of a request for a list, in their order. -/
def listArguments (start stop set : Option String) (metadataPrefix : String) :
    List (String × String) :=
  [("verb", "ListRecords")] ++ optional "from" start ++ optional "until" stop ++
    optional "set" set ++ [("metadataPrefix", metadataPrefix)]

def resumptionArguments (token : String) : List (String × String) :=
  [("verb", "ListRecords"), ("resumptionToken", token)]

/-! Queries -/

/-- The query writes the arguments, of which there is at least one. -/
structure Writes (query : String) (arguments : List (String × String)) : Prop where
  some : arguments ≠ []
  chars : query.toList = queryOf arguments

theorem Writes.append {query part : String} {arguments more : List (String × String)}
    (h : Writes query arguments) (hpart : part.toList = more.flatMap behind) :
    Writes (query ++ part) (arguments ++ more) where
  some := List.append_ne_nil_of_left_ne_nil h.some more
  chars := by rw [String.toList_append, queryOf_append h.some, h.chars, hpart]

/-- An argument whose name has no special characters. -/
theorem behind_chars (mark name : String) (hmark : mark = "&" ++ name ++ "=")
    (hname : formEncode name = name) (value : String) :
    (mark ++ formEncode value).toList = [(name, value)].flatMap behind := by
  rw [List.flatMap_singleton, behind, written, hname, hmark]
  simp

theorem optional_chars (name : String) (hname : formEncode name = name) (value : Option String) :
    (argument name value).toList = (optional name value).flatMap behind := by
  cases value with
  | none => rfl
  | some v =>
    cases hempty : v.isEmpty with
    | true => simp [argument, optional, given, Option.filter, hempty]
    | false =>
      have hgiven : optional name (some v) = [(name, v)] := by
        simp [optional, given, Option.filter, hempty]
      rw [hgiven, ← behind_chars _ name rfl hname v, argument, if_neg (by simp [hempty])]

theorem writes_listRecords (start stop set : Option String) (metadataPrefix : String) :
    Writes (listRecordsQuery start stop set metadataPrefix)
      (listArguments start stop set metadataPrefix) := by
  have hverb : Writes "verb=ListRecords" [("verb", "ListRecords")] :=
    ⟨List.cons_ne_nil _ _, by decide +kernel⟩
  have hstart := hverb.append (optional_chars "from" (by decide +kernel) start)
  have hstop := hstart.append (optional_chars "until" (by decide +kernel) stop)
  have hset := hstop.append (optional_chars "set" (by decide +kernel) set)
  have hchosen := hset.append (behind_chars "&metadataPrefix=" "metadataPrefix"
    (by decide +kernel) (by decide +kernel) metadataPrefix)
  rw [← String.append_assoc] at hchosen
  exact hchosen

theorem writes_resumption (token : String) :
    Writes (resumptionQuery token) (resumptionArguments token) := by
  have hverb : Writes "verb=ListRecords" [("verb", "ListRecords")] :=
    ⟨List.cons_ne_nil _ _, by decide +kernel⟩
  have htoken := hverb.append (behind_chars "&resumptionToken=" "resumptionToken"
    (by decide +kernel) (by decide +kernel) token)
  have hmark : "verb=ListRecords" ++ "&resumptionToken=" = "verb=ListRecords&resumptionToken=" := by
    decide +kernel
  rw [← String.append_assoc, hmark] at htoken
  exact htoken

theorem writes_metadataFormats :
    Writes "verb=ListMetadataFormats" [("verb", "ListMetadataFormats")] :=
  ⟨List.cons_ne_nil _ _, by decide +kernel⟩

theorem writes_identify : Writes "verb=Identify" [("verb", "Identify")] :=
  ⟨List.cons_ne_nil _ _, by decide +kernel⟩

/-! URLs -/

/-- A URL that asks a host for the arguments: what stands behind the address of the host is decoded
to them. -/
def Asks (host url : String) (arguments : List (String × String)) : Prop :=
  ∃ query, url = host ++ separator host ++ query ∧ argumentsOf query.toList = arguments

theorem Writes.asks {query : String} {arguments : List (String × String)}
    (h : Writes query arguments) (host : String) : Asks host (withQuery host query) arguments :=
  ⟨query, rfl, by rw [h.chars, argumentsOf_queryOf]⟩

/-- A URL tells what it asks a host for. -/
theorem Asks.arguments_eq {host url : String} {l l' : List (String × String)}
    (h : Asks host url l) (h' : Asks host url l') : l = l' := by
  obtain ⟨query, rfl, hl⟩ := h
  obtain ⟨query', heq, hl'⟩ := h'
  rw [String.append_right_inj] at heq
  rw [← hl, heq, hl']

theorem Asks.ne {host url url' : String} {l l' : List (String × String)} (h : Asks host url l)
    (h' : Asks host url' l') (hne : l ≠ l') : url ≠ url' := by
  rintro rfl
  exact hne (h.arguments_eq h')

theorem lookup_listArguments (start stop set : Option String) (metadataPrefix : String) :
    let l := listArguments start stop set metadataPrefix
    l.lookup "from" = given start ∧ l.lookup "until" = given stop ∧
      l.lookup "set" = given set ∧ l.lookup "metadataPrefix" = some metadataPrefix := by
  rw [listArguments, optional, optional, optional]
  cases given start <;> cases given stop <;> cases given set <;> simp [List.lookup_cons]

theorem listRecords_eq_iff (host : String) {start stop set start' stop' set' : Option String}
    {metadataPrefix metadataPrefix' : String} :
    listRecords host start stop set metadataPrefix =
        listRecords host start' stop' set' metadataPrefix' ↔
      given start = given start' ∧ given stop = given stop' ∧ given set = given set' ∧
        metadataPrefix = metadataPrefix' := by
  have hwrites := writes_listRecords start stop set metadataPrefix
  have hwrites' := writes_listRecords start' stop' set' metadataPrefix'
  constructor
  · intro h
    have hurl' := hwrites'.asks host
    rw [← listRecords, ← h] at hurl'
    have hsame := (hwrites.asks host).arguments_eq hurl'
    obtain ⟨hstart, hstop, hset, hchosen⟩ := lookup_listArguments start stop set metadataPrefix
    obtain ⟨hstart', hstop', hset', hchosen'⟩ :=
      lookup_listArguments start' stop' set' metadataPrefix'
    rw [hsame] at hstart hstop hset hchosen
    exact ⟨hstart.symm.trans hstart', hstop.symm.trans hstop', hset.symm.trans hset',
      Option.some.inj (hchosen.symm.trans hchosen')⟩
  · rintro ⟨hstart, hstop, hset, rfl⟩
    have harguments : listArguments start stop set metadataPrefix =
        listArguments start' stop' set' metadataPrefix := by
      rw [listArguments, optional, optional, optional, hstart, hstop, hset]
      rfl
    have hquery := hwrites.chars
    rw [harguments, ← hwrites'.chars, String.toList_inj] at hquery
    rw [listRecords, hquery, listRecords]

theorem resumption_eq_iff (host : String) {token token' : String} :
    resumption host token = resumption host token' ↔ token = token' := by
  refine ⟨fun h => ?_, fun h => congrArg _ h⟩
  have hurl' := (writes_resumption token').asks host
  rw [← resumption, ← h] at hurl'
  have hsame := ((writes_resumption token).asks host).arguments_eq hurl'
  simpa [resumptionArguments] using hsame

/-- The URLs of different requests to one host differ. -/
theorem kinds_nodup (host : String) (start stop set : Option String)
    (metadataPrefix token : String) :
    [listRecords host start stop set metadataPrefix, resumption host token, metadataFormats host,
      identify host].Nodup := by
  have hlist := (writes_listRecords start stop set metadataPrefix).asks host
  have hmore := (writes_resumption token).asks host
  have hformats := writes_metadataFormats.asks host
  have hidentify := writes_identify.asks host
  obtain ⟨_, _, _, hchosen⟩ := lookup_listArguments start stop set metadataPrefix
  have hdiffers {l : List (String × String)} (hl : l.lookup "metadataPrefix" = none) :
      listArguments start stop set metadataPrefix ≠ l := by
    rintro rfl
    rw [hchosen] at hl
    cases hl
  simp only [List.nodup_cons, List.mem_cons, List.not_mem_nil, or_false, not_or,
    not_false_eq_true, List.nodup_nil, and_true]
  refine ⟨⟨hlist.ne hmore (hdiffers ?_), hlist.ne hformats (hdiffers ?_),
    hlist.ne hidentify (hdiffers ?_)⟩, ⟨hmore.ne hformats ?_, hmore.ne hidentify ?_⟩,
    hformats.ne hidentify ?_⟩
  all_goals simp [resumptionArguments, List.lookup_cons]

/-- Behind the address of the host and its separator the URL of a list is decoded to the verb, the
arguments that are there, and the prefix, all as they were given; that of a resumption to the verb
and the token. So the URLs of two lists are the same only if they ask for the same, an empty
argument being none, those of two resumptions only for the same token, and those of different
requests never. -/
theorem urls_tell_requests (host : String) :
    (∀ start stop set metadataPrefix,
      Asks host (listRecords host start stop set metadataPrefix)
        ([("verb", "ListRecords")] ++ optional "from" start ++ optional "until" stop ++
          optional "set" set ++ [("metadataPrefix", metadataPrefix)])) ∧
    (∀ token, Asks host (resumption host token)
      [("verb", "ListRecords"), ("resumptionToken", token)]) ∧
    (∀ start stop set metadataPrefix start' stop' set' metadataPrefix',
      listRecords host start stop set metadataPrefix =
          listRecords host start' stop' set' metadataPrefix' ↔
        given start = given start' ∧ given stop = given stop' ∧ given set = given set' ∧
          metadataPrefix = metadataPrefix') ∧
    (∀ token token', resumption host token = resumption host token' ↔ token = token') ∧
    ∀ start stop set metadataPrefix token,
      [listRecords host start stop set metadataPrefix, resumption host token,
        metadataFormats host, identify host].Nodup :=
  ⟨fun start stop set metadataPrefix =>
      (writes_listRecords start stop set metadataPrefix).asks host,
    fun token => (writes_resumption token).asks host,
    fun _ _ _ _ _ _ _ _ => listRecords_eq_iff host,
    fun _ _ => resumption_eq_iff host, kinds_nodup host⟩

example : listRecords "h?r=1" none (some "") (some "a&b= c") "p" =
    "h?r=1&verb=ListRecords&set=a%26b%3D+c&metadataPrefix=p" := by decide +kernel

end Harvest.Requests
