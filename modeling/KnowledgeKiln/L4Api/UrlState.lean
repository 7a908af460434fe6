import KnowledgeKiln.Core.FormUrlencoded
import KnowledgeKiln.L2Retrieval.Types

/-!
# Shareable search URLs

The search form (api/templates/search.html), the script that keeps the address
bar in step with it (api/static/kiln-url-state.js), and the two handlers that
read a search: `POST /search` from the form, `GET /search` from the URL
(api/web.py, api/web_url_state.py, api/forms.py). A handler is followed up to
the call of `retriever.search`; what the page shows of the result is left out.

The form carries a hidden `_filters_set`, which tells "no status is checked"
from "no form was sent". The script leaves it out of the URL, where the
presence of a `status` parameter is to play its part.

* `values_shared`: what the URL says of a field is what the form said, blank values apart.
* `openUrl_nextUrl`: what the script appended is what the server reads.
* `searchPageFromUrl_eq`: with a status checked, the URL is as good as the form.
* `shared_search_iff`: when opening the URL repeats the search of the form.
-/
namespace KnowledgeKiln.L4.UrlState

open KnowledgeKiln.Core KnowledgeKiln.L2 FormUrlencoded

/-! ## The form -/

/-- The boxes of the status fieldset (search.html:66-96); also `VALID_STATUSES`. -/
def statusBoxes : List Status :=
  [.active, .approved, .draft, .deprecated, .archived, .superseded]

/-- The boxes of the doc type fieldset (search.html:147). -/
def docTypeBoxes : List Str := ["runbook", "adr", "standard", "sop", "guide", "reference"]

/-- What is typed into the form, and which of its boxes are checked. -/
structure SearchForm where
  query : Str
  status : Status → Bool
  docType : Str → Bool
  repo : Str
  owner : Str
  lastReviewedAfter : Str
  tags : Str

def SearchForm.statuses (form : SearchForm) : List Str :=
  (statusBoxes.filter form.status).map Status.value

def SearchForm.docTypes (form : SearchForm) : List Str := docTypeBoxes.filter form.docType

/-- The named values of a form, or of a query string, in order. -/
abbrev Fields := List (Str × Str)

/-- `new FormData(form).entries()`: the controls as they stand in the template. -/
def SearchForm.entries (form : SearchForm) : Fields :=
  [("query".toList, form.query), ("_filters_set".toList, "1".toList)] ++
    form.statuses.map (Prod.mk "status".toList) ++
    [("repo".toList, form.repo)] ++
    form.docTypes.map (Prod.mk "doc_type".toList) ++
    [("owner".toList, form.owner), ("last_reviewed_after".toList, form.lastReviewedAfter),
      ("tags".toList, form.tags)]

/-! ## The script -/

/-- One turn of the loop over the entries (kiln-url-state.js:48-56). -/
def shared (f : Str × Str) : Option (Str × Str) :=
  if f.1 = "_filters_set" then none
  else if f.2 = [] then none
  else if f.1 = "query" then some ("q", f.2)
  else some f

/-- The URL of `history.replaceState` (kiln-url-state.js:42-58). -/
def nextUrl (entries : Fields) : Str :=
  let params := serialize (entries.filterMap shared)
  if params ≠ [] then "/search?" ++ params else "/search"

/-- The `htmx:afterRequest` listener; `none` leaves the address bar as it is. -/
def afterRequest (popstateInFlight successful : Bool) (form : SearchForm) : Option Str :=
  if popstateInFlight then none
  else if successful then some (nextUrl form.entries)
  else none

/-! ## Filters -/

/-- Every value of a field: FastAPI's `getlist`. -/
def values (name : Str) (fields : Fields) : List Str :=
  (fields.filter fun f => f.1 = name).map Prod.snd

/-- A parameter of type `list[str] | None`. -/
def listParam (name : Str) (fields : Fields) : Option (List Str) :=
  match values name fields with
  | [] => none
  | vs => some vs

/-- A parameter of type `str` with default `""`. -/
def strParam (name : Str) (fields : Fields) : Str := (values name fields).getLastD ""

def defaultStatuses : List Str := [Status.active.value, Status.approved.value]

def validStatuses : List Str := statusBoxes.map Status.value

/-- Mirrors `selected_statuses` (forms.py:69-71). -/
def selectedStatuses (status : Option (List Str)) : List Str :=
  (status.getD []).filter (· ∈ validStatuses)

/-- Mirrors `split_csv` (forms.py:125-133). -/
def splitCsv (raw : Str) : List Str :=
  ((strip raw).splitOnP fun c => c == ',' || isSpace c).filter (· ≠ [])

/-- Mirrors `parse_iso_date` (forms.py:136-150). -/
def parseIsoDate (fromIsoformat : Str → Option Date) (raw : Str) : Option Date :=
  if raw = [] then none else fromIsoformat raw

/-- `xs or None`, for a list field of `RetrievalFilters`. -/
def filterList {α : Type} (xs : List α) : Py (Option (FilterList α)) :=
  if xs = [] then pure none
  else if h : xs.length ≤ maxFilterItems then pure (some ⟨xs, h⟩)
  else throw (.validationError "RetrievalFilters")

/-- A status Pydantic accepts. -/
def toStatus (s : Str) : Py Status :=
  match statusBoxes.find? fun b => b.value = s with
  | some b => pure b
  | none => throw (.validationError "RetrievalFilters")

/-- The statuses `filters_from_form` starts from (forms.py:103-108). -/
def rawStatuses (status : Option (List Str)) (filtersSet : Bool) : List Str :=
  if filtersSet then status.getD []
  else match status with
    | some status => status
    | none => defaultStatuses

/-- Mirrors `filters_from_form` (forms.py:74-122). -/
def filtersFromForm (fromIsoformat : Str → Option Date) (status : Option (List Str))
    (filtersSet : Bool) (repo : Str) (docType : Option (List Str)) (owner lastReviewedAfter : Str)
    (tags : Str) : Py RetrievalFilters := do
  let selected := (rawStatuses status filtersSet).filter (· ∈ validStatuses)
  let status ← Py.mapM toStatus selected
  let status ← filterList status
  let repo ← filterList (splitCsv repo)
  let docType ← filterList (docType.getD [])
  let owner ← filterList (splitCsv owner)
  let tags ← filterList (splitCsv tags)
  pure
    { status, repo, docType, owner, tags
      lastReviewedAfter := parseIsoDate fromIsoformat lastReviewedAfter }

/-! ## The handlers -/

/-- A call of `retriever.search`. -/
structure Retrieval where
  query : Str
  filters : RetrievalFilters
  maxResults : Nat

/-- What a request finds: `limiter.hit(key)`, and the status code of the page after a
retrieval, 503 if `retriever.search` raised. -/
structure Moment where
  allowed : Bool
  answer : Retrieval → Nat

/-- A response, and the retrieval the handler issued for it. -/
structure Served where
  statusCode : Nat
  retrieval : Option Retrieval

/-- Both handlers, from the rate limit to the retrieval; they differ in where the arguments
come from. -/
def serveSearch (fromIsoformat : Str → Option Date) (m : Moment) (query : Str)
    (status : Option (List Str)) (fs : Bool) (sel : List Str) (repo : Str)
    (docType : Option (List Str)) (owner lastReviewedAfter tags : Str) : Py Served := do
  if !m.allowed then return ⟨429, none⟩
  let query := strip query
  if query = [] then return ⟨200, none⟩
  if maxQueryLength < query.length then return ⟨413, none⟩
  if fs && sel = [] then return ⟨200, none⟩
  let filters ← filtersFromForm fromIsoformat status fs repo docType owner lastReviewedAfter tags
  let retrieval : Retrieval := ⟨query, filters, 20⟩
  pure ⟨m.answer retrieval, some retrieval⟩

/-- Mirrors `search_partial` (web.py:107-203); an empty `_filters_set` is no value. -/
def searchPartial (fromIsoformat : Str → Option Date) (m : Moment) (form : Fields) : Py Served :=
  let status := listParam "status" form
  serveSearch fromIsoformat m (strParam "query" form) status
    (strParam "_filters_set" form ≠ []) (selectedStatuses status) (strParam "repo" form)
    (listParam "doc_type" form) (strParam "owner" form) (strParam "last_reviewed_after" form)
    (strParam "tags" form)

/-- Mirrors `search_page_from_url` (web_url_state.py:77-208). -/
def searchPageFromUrl (fromIsoformat : Str → Option Date) (m : Moment) (params : Fields) :
    Py Served :=
  let status := listParam "status" params
  let fs := status.isSome
  serveSearch fromIsoformat m (strParam "q" params) status fs
    (if fs then selectedStatuses status else defaultStatuses) (strParam "repo" params)
    (listParam "doc_type" params) (strParam "owner" params)
    (strParam "last_reviewed_after" params) (strParam "tags" params)

/-! ## Sharing -/

/-- `retriever.search` as the handler called it, if it did. -/
def retrieval (r : Py Served) : Option Retrieval :=
  match r with
  | .ok served => served.retrieval
  | .error _ => none

/-- `e.detail.successful`; an exception is a 500. -/
def successful (r : Py Served) : Bool :=
  match r with
  | .ok served => 200 ≤ served.statusCode && served.statusCode < 400
  | .error _ => false

/-- The URL in the address bar after the form was posted. -/
def writtenUrl (fromIsoformat : Str → Option Date) (m : Moment) (popstateInFlight : Bool)
    (form : SearchForm) : Option Str :=
  afterRequest popstateInFlight (successful (searchPartial fromIsoformat m form.entries)) form

/-- The parameters a server finds in a URL that is opened: a fragment stays in the browser. -/
def openUrl (replace : List UInt8 → Str) (url : Str) : Fields :=
  parseQsl replace (partition (partition url '#').1 '?').2

/-- A rail field lists more than `RetrievalFilters` takes. -/
def SearchForm.Overfull (form : SearchForm) : Prop :=
  ∃ raw ∈ [form.repo, form.owner, form.tags], maxFilterItems < (splitCsv raw).length

/-! ## What the URL says -/

theorem values_nil (name : Str) : values name [] = [] := rfl

theorem values_cons (name : Str) (f : Str × Str) (fields : Fields) :
    values name (f :: fields) = if f.1 = name then f.2 :: values name fields
      else values name fields := by
  by_cases h : f.1 = name <;> simp [values, h]

theorem values_append (name : Str) (fields fields' : Fields) :
    values name (fields ++ fields') = values name fields ++ values name fields' := by
  simp [values]

theorem values_map_self (name : Str) (vs : List Str) : values name (vs.map (Prod.mk name)) = vs := by
  simp [values, List.filter_map, Function.comp_def]

theorem values_map_of_ne {name key : Str} (h : key ≠ name) (vs : List Str) :
    values name (vs.map (Prod.mk key)) = [] := by
  simp [values, List.filter_map, Function.comp_def, h]

theorem values_shared_cons (name : Str) (f : Str × Str) (fields : Fields) :
    values name ((f :: fields).filterMap shared) =
      values name (shared f).toList ++ values name (fields.filterMap shared) := by
  rw [← values_append]
  cases h : shared f with
  | none => simp [h]
  | some p => simp [h]

theorem shared_blank (k : Str) : shared (k, []) = none := by
  unfold shared
  split
  · rfl
  · exact if_pos rfl

theorem shared_marker {k : Str} (hk : k = "_filters_set".toList) (v : Str) :
    shared (k, v) = none :=
  if_pos hk

theorem shared_query {k v : Str} (hk : k = "query".toList) (hv : v ≠ []) :
    shared (k, v) = some ("q".toList, v) := by
  have hm : k ≠ "_filters_set".toList := by
    rw [hk]
    decide
  unfold shared
  rw [if_neg hm, if_neg hv, if_pos hk]

theorem shared_other {k v : Str} (hm : k ≠ "_filters_set".toList) (hk : k ≠ "query".toList)
    (hv : v ≠ []) : shared (k, v) = some (k, v) := by
  unfold shared
  rw [if_neg hm, if_neg hv, if_neg hk]

/-- A field of the URL is the field of the form, without its blank values. -/
theorem values_shared {name : Str} (hmarker : name ≠ "_filters_set".toList)
    (hquery : name ≠ "query".toList) (hq : name ≠ "q".toList) : ∀ fields : Fields,
      values name (fields.filterMap shared) = (values name fields).filter (· ≠ [])
  | [] => rfl
  | (k, v) :: fields => by
    have ih := values_shared hmarker hquery hq fields
    rw [values_shared_cons, values_cons, ih]
    by_cases hv : v = []
    · subst hv
      rw [shared_blank]
      split
      · rfl
      · rfl
    by_cases hm : k = "_filters_set".toList
    · have hkn : k ≠ name := fun h => hmarker (h ▸ hm)
      rw [shared_marker hm, if_neg hkn]
      rfl
    by_cases hk : k = "query".toList
    · have hkn : k ≠ name := fun h => hquery (h ▸ hk)
      rw [shared_query hk hv, if_neg hkn, Option.toList_some, values_cons, if_neg (Ne.symm hq)]
      rfl
    · rw [shared_other hm hk hv, Option.toList_some, values_cons]
      split
      · rw [List.filter_cons_of_pos (by simpa using hv)]
        rfl
      · rfl

/-- The parameter `q` is the query of the form, unless that is blank. -/
theorem values_q : ∀ {fields : Fields}, values "q" fields = [] →
    values "q" (fields.filterMap shared) = (values "query" fields).filter (· ≠ [])
  | [], _ => rfl
  | (k, v) :: fields, h => by
    have hkq : k ≠ "q".toList := by
      intro he
      rw [values_cons, if_pos he] at h
      cases h
    rw [values_cons, if_neg hkq] at h
    rw [values_shared_cons, values_cons, values_q h]
    by_cases hv : v = []
    · subst hv
      rw [shared_blank]
      split
      · rfl
      · rfl
    by_cases hm : k = "_filters_set".toList
    · have hk : k ≠ "query".toList := by
        rw [hm]
        decide
      rw [shared_marker hm, if_neg hk]
      rfl
    by_cases hk : k = "query".toList
    · rw [shared_query hk hv, if_pos hk, Option.toList_some, values_cons, if_pos rfl,
        List.filter_cons_of_pos (by simpa using hv)]
      rfl
    · rw [shared_other hm hk hv, Option.toList_some, values_cons, if_neg hkq, if_neg hk]
      rfl

/-- What is opened is what the script appended. -/
theorem openUrl_nextUrl (replace : List UInt8 → Str) (entries : Fields) :
    openUrl replace (nextUrl entries) = entries.filterMap shared := by
  have hread : parseQsl replace (serialize (entries.filterMap shared)) =
      entries.filterMap shared := parseQsl_serialize _
  unfold openUrl nextUrl
  dsimp only
  split
  · have hpath : '?' ∉ "/search".toList := by decide
    have hfragment : '#' ∉ "/search?".toList ++ serialize (entries.filterMap shared) := by
      rw [List.mem_append, not_or]
      exact ⟨by decide, not_mem_serialize (by decide) (by decide) (by decide) (by decide)
        (by decide) _⟩
    have hwhole : (partition ("/search?".toList ++ serialize (entries.filterMap shared)) '#').1 =
        "/search".toList ++ '?' :: serialize (entries.filterMap shared) := by
      rw [partition, List.takeWhile_eq_self_iff.mpr]
      · rfl
      · intro c hc
        have hne : c ≠ '#' := ne_of_mem_of_not_mem hc hfragment
        simpa using hne
    rw [hwhole, Url.partition_of_not_mem hpath]
    exact hread
  · rename_i hempty
    rw [← hread, not_not.mp hempty]
    rfl

section
variable (form : SearchForm)

theorem values_entries :
    values "q" form.entries = [] ∧ values "query" form.entries = [form.query] ∧
      values "_filters_set" form.entries = ["1".toList] ∧
      values "status" form.entries = form.statuses ∧ values "repo" form.entries = [form.repo] ∧
      values "doc_type" form.entries = form.docTypes ∧
      values "owner" form.entries = [form.owner] ∧
      values "last_reviewed_after" form.entries = [form.lastReviewedAfter] ∧
      values "tags" form.entries = [form.tags] := by
  unfold SearchForm.entries
  refine ⟨?_, ?_, ?_, ?_, ?_, ?_, ?_, ?_, ?_⟩
  all_goals
    simp [values_append, values_cons, values_nil, values_map_self, values_map_of_ne]

/-! ## What the two handlers read -/

theorem strParam_of_values {name v : Str} {fields : Fields} (h : values name fields = [v]) :
    strParam name fields = v := by
  simp [strParam, h]

/-- A text field reads the same from the URL, a blank one as the default. -/
theorem strParam_shared {name v : Str} (h : values name form.entries = [v])
    (hmarker : name ≠ "_filters_set".toList) (hquery : name ≠ "query".toList)
    (hq : name ≠ "q".toList) : strParam name (form.entries.filterMap shared) = v := by
  unfold strParam
  rw [values_shared hmarker hquery hq, h]
  by_cases hv : v = [] <;> simp [hv]

theorem listParam_of_values {name : Str} {vs : List Str} {fields : Fields}
    (h : values name fields = vs) : listParam name fields = if vs = [] then none else some vs := by
  unfold listParam
  rw [h]
  cases vs <;> simp

end

section
variable {fromIsoformat : Str → Option Date} {m : Moment} {query : Str} {status : Option (List Str)}
  {fs : Bool} {sel : List Str} {repo : Str} {docType : Option (List Str)}
  {owner lastReviewedAfter tags : Str}

/-- Nothing stops the handler before it builds its filters. -/
def Reaches (m : Moment) (query : Str) (fs : Bool) (sel : List Str) : Prop :=
  m.allowed = true ∧ strip query ≠ [] ∧ (strip query).length ≤ maxQueryLength ∧
    ¬(fs = true ∧ sel = [])

theorem serveSearch_of_reaches (h : Reaches m query fs sel) :
    serveSearch fromIsoformat m query status fs sel repo docType owner lastReviewedAfter tags =
      (filtersFromForm fromIsoformat status fs repo docType owner lastReviewedAfter tags).map
        fun filters => ⟨m.answer ⟨strip query, filters, 20⟩, some ⟨strip query, filters, 20⟩⟩ := by
  obtain ⟨ha, hq, hl, hs⟩ := h
  have hs' : (fs && decide (sel = [])) = false := by simpa using hs
  have hl' : ¬maxQueryLength < (strip query).length := by omega
  unfold serveSearch
  simp only [ha, hq, hl', hs', Bool.not_true, Bool.false_eq_true, if_false]
  cases filtersFromForm fromIsoformat status fs repo docType owner lastReviewedAfter tags <;> rfl

/-- Otherwise nothing is retrieved, and a status below 400 has one of two reasons. -/
theorem serveSearch_of_not_reaches (h : ¬Reaches m query fs sel) :
    let served :=
      serveSearch fromIsoformat m query status fs sel repo docType owner lastReviewedAfter tags
    retrieval served = none ∧ (successful served = true → m.allowed = true ∧
      (strip query = [] ∨ (strip query).length ≤ maxQueryLength ∧ fs = true ∧ sel = [])) := by
  intro served
  unfold served serveSearch
  cases ha : m.allowed with
  | false => exact ⟨rfl, by simp [successful, pure, Except.pure]⟩
  | true =>
    by_cases hq : strip query = []
    · simp [hq, retrieval, pure, Except.pure]
    by_cases hl : maxQueryLength < (strip query).length
    · simp [hq, hl, retrieval, successful, pure, Except.pure]
    have hs : fs = true ∧ sel = [] := by
      by_contra hs
      exact h ⟨ha, hq, by omega, hs⟩
    have hl' : (strip query).length ≤ maxQueryLength := by omega
    simp [hq, hl, hl', hs, retrieval, pure, Except.pure]

/-- When the handlers search, and for what. -/
theorem retrieval_serveSearch {r : Retrieval} :
    retrieval (serveSearch fromIsoformat m query status fs sel repo docType owner
        lastReviewedAfter tags) = some r ↔
      Reaches m query fs sel ∧
        ∃ filters, filtersFromForm fromIsoformat status fs repo docType owner lastReviewedAfter
          tags = .ok filters ∧ r = ⟨strip query, filters, 20⟩ := by
  by_cases h : Reaches m query fs sel
  · rw [serveSearch_of_reaches h]
    cases filtersFromForm fromIsoformat status fs repo docType owner lastReviewedAfter tags with
    | error exc => simp [retrieval, Except.map]
    | ok filters => simp [retrieval, Except.map, h, eq_comm]
  · rw [(serveSearch_of_not_reaches h).1]
    simp [h]

theorem filterList_returns_iff {α : Type} {xs : List α} :
    (∃ ys, filterList xs = .ok ys) ↔ xs.length ≤ maxFilterItems := by
  unfold filterList
  by_cases hx : xs = []
  · simp [hx]
  · by_cases hl : xs.length ≤ maxFilterItems <;> simp [hx, hl]

theorem toStatus_returns {s : Str} (h : s ∈ validStatuses) : ∃ b, toStatus s = .ok b := by
  obtain ⟨b, hb, he⟩ := List.mem_map.mp h
  unfold toStatus
  cases hf : statusBoxes.find? fun b => b.value = s with
  | some b' => exact ⟨b', rfl⟩
  | none => exact absurd he (by simpa using List.find?_eq_none.mp hf b hb)

/-- The filters are refused only for the length of a list. -/
theorem filtersFromForm_returns_iff :
    (∃ filters, filtersFromForm fromIsoformat status fs repo docType owner lastReviewedAfter tags =
        .ok filters) ↔
      ((rawStatuses status fs).filter (· ∈ validStatuses)).length ≤ maxFilterItems ∧
        (splitCsv repo).length ≤ maxFilterItems ∧ (docType.getD []).length ≤ maxFilterItems ∧
        (splitCsv owner).length ≤ maxFilterItems ∧ (splitCsv tags).length ≤ maxFilterItems := by
  unfold filtersFromForm
  constructor
  · rintro ⟨filters, h⟩
    obtain ⟨sts, hm, h⟩ := Py.bind_ok.mp h
    obtain ⟨st, hs, h⟩ := Py.bind_ok.mp h
    obtain ⟨rp, hr, h⟩ := Py.bind_ok.mp h
    obtain ⟨dt, hd, h⟩ := Py.bind_ok.mp h
    obtain ⟨ow, ho, h⟩ := Py.bind_ok.mp h
    obtain ⟨tg, ht, -⟩ := Py.bind_ok.mp h
    rw [← Py.mapM_ok_length hm]
    exact ⟨filterList_returns_iff.mp ⟨st, hs⟩, filterList_returns_iff.mp ⟨rp, hr⟩,
      filterList_returns_iff.mp ⟨dt, hd⟩, filterList_returns_iff.mp ⟨ow, ho⟩,
      filterList_returns_iff.mp ⟨tg, ht⟩⟩
  · rintro ⟨hs, hr, hd, ho, ht⟩
    have hvalid : ∀ s ∈ (rawStatuses status fs).filter (· ∈ validStatuses),
        ∃ b, toStatus s = .ok b := fun s h => toStatus_returns (by simpa using (List.mem_filter.mp h).2)
    obtain ⟨sts, hm⟩ := Py.mapM_returns_iff.mpr hvalid
    rw [← Py.mapM_ok_length hm] at hs
    obtain ⟨st, hs⟩ := filterList_returns_iff.mpr hs
    obtain ⟨rp, hr⟩ := filterList_returns_iff.mpr hr
    obtain ⟨dt, hd⟩ := filterList_returns_iff.mpr hd
    obtain ⟨ow, ho⟩ := filterList_returns_iff.mpr ho
    obtain ⟨tg, ht⟩ := filterList_returns_iff.mpr ht
    exact ⟨_, Py.bind_ok.mpr ⟨sts, hm, Py.bind_ok.mpr ⟨st, hs, Py.bind_ok.mpr ⟨rp, hr,
      Py.bind_ok.mpr ⟨dt, hd, Py.bind_ok.mpr ⟨ow, ho, Py.bind_ok.mpr ⟨tg, ht, rfl⟩⟩⟩⟩⟩⟩⟩

end

/-! ## From the form to the URL and back -/

section
variable {fromIsoformat : Str → Option Date} {replace : List UInt8 → Str} {form : SearchForm}
  {m atPost atGet : Moment} {url : Str}

/-- A checked fieldset, as either handler is given it. -/
def checked (boxes : List Str) : Option (List Str) := if boxes = [] then none else some boxes

theorem searchPartial_entries : searchPartial fromIsoformat m form.entries =
    serveSearch fromIsoformat m form.query (checked form.statuses) true
      (selectedStatuses (checked form.statuses)) form.repo (checked form.docTypes) form.owner
      form.lastReviewedAfter form.tags := by
  obtain ⟨-, hquery, hmarker, hstatus, hrepo, hdoc, howner, hdate, htags⟩ := values_entries form
  unfold searchPartial
  simp only [strParam_of_values hquery, strParam_of_values hmarker, listParam_of_values hstatus,
    strParam_of_values hrepo, listParam_of_values hdoc, strParam_of_values howner,
    strParam_of_values hdate, strParam_of_values htags, checked]
  rfl

theorem values_ne_nil_of_statuses : form.statuses.filter (· ≠ []) = form.statuses := by
  refine List.filter_eq_self.mpr fun s hs => ?_
  obtain ⟨b, -, rfl⟩ := List.mem_map.mp hs
  cases b <;> decide

theorem values_ne_nil_of_docTypes : form.docTypes.filter (· ≠ []) = form.docTypes := by
  refine List.filter_eq_self.mpr fun s hs => ?_
  have hbox : s ∈ docTypeBoxes := (List.mem_filter.mp hs).1
  have hall : ∀ b ∈ docTypeBoxes, decide (b ≠ []) = true := by decide
  exact hall s hbox

theorem searchPageFromUrl_nextUrl :
    searchPageFromUrl fromIsoformat m (openUrl replace (nextUrl form.entries)) =
      serveSearch fromIsoformat m form.query (checked form.statuses) (checked form.statuses).isSome
        (if (checked form.statuses).isSome then selectedStatuses (checked form.statuses)
          else defaultStatuses) form.repo (checked form.docTypes) form.owner
        form.lastReviewedAfter form.tags := by
  obtain ⟨hq, hquery, -, hstatus, hrepo, hdoc, howner, hdate, htags⟩ := values_entries form
  have hq' : strParam "q" (form.entries.filterMap shared) = form.query := by
    unfold strParam
    rw [values_q hq, hquery]
    by_cases hv : form.query = [] <;> simp [hv]
  have hstatus' : listParam "status" (form.entries.filterMap shared) = checked form.statuses := by
    rw [listParam_of_values (values_shared (by decide) (by decide) (by decide) _), hstatus,
      values_ne_nil_of_statuses, checked]
  have hdoc' : listParam "doc_type" (form.entries.filterMap shared) = checked form.docTypes := by
    rw [listParam_of_values (values_shared (by decide) (by decide) (by decide) _), hdoc,
      values_ne_nil_of_docTypes, checked]
  rw [openUrl_nextUrl]
  unfold searchPageFromUrl
  simp only [hq', hstatus', hdoc', strParam_shared form hrepo (by decide) (by decide) (by decide),
    strParam_shared form howner (by decide) (by decide) (by decide),
    strParam_shared form hdate (by decide) (by decide) (by decide),
    strParam_shared form htags (by decide) (by decide) (by decide)]

theorem statuses_eq_nil : form.statuses = [] ↔ ∀ s, form.status s = false := by
  have hall : ∀ s, s ∈ statusBoxes := by
    intro s
    cases s <;> decide
  unfold SearchForm.statuses
  rw [List.map_eq_nil_iff, List.filter_eq_nil_iff]
  simp [hall]

/-- The selected statuses are the checked ones: the form offers no others. -/
theorem selectedStatuses_checked : selectedStatuses (checked form.statuses) = form.statuses := by
  have hvalid : form.statuses.filter (· ∈ validStatuses) = form.statuses := by
    refine List.filter_eq_self.mpr fun s hs => ?_
    obtain ⟨b, hb, rfl⟩ := List.mem_map.mp hs
    exact decide_eq_true (List.mem_map_of_mem (List.mem_filter.mp hb).1)
  unfold selectedStatuses checked
  split
  · rename_i h
    rw [h]
    rfl
  · exact hvalid

theorem docTypes_length : (form.docTypes).length ≤ maxFilterItems :=
  (List.length_filter_le _ _).trans (by decide)

/-- With a status checked, the URL is as good as the form. -/
theorem searchPageFromUrl_eq (h : form.statuses ≠ []) :
    searchPageFromUrl fromIsoformat m (openUrl replace (nextUrl form.entries)) =
      searchPartial fromIsoformat m form.entries := by
  rw [searchPageFromUrl_nextUrl, searchPartial_entries]
  simp [checked, h]

/-- With none checked, the form searches nothing. -/
theorem retrieval_searchPartial_of_nil (h : form.statuses = []) :
    retrieval (searchPartial fromIsoformat m form.entries) = none := by
  rw [searchPartial_entries, selectedStatuses_checked, h]
  refine (serveSearch_of_not_reaches ?_).1
  rintro ⟨-, -, -, hs⟩
  exact hs ⟨rfl, rfl⟩

/-- A handler that the limiter lets through finds the same as any other that got through. -/
theorem retrieval_searchPartial {r : Retrieval} (hget : atGet.allowed = true)
    (h : retrieval (searchPartial fromIsoformat atPost form.entries) = some r) :
    retrieval (searchPartial fromIsoformat atGet form.entries) = some r := by
  rw [searchPartial_entries] at h ⊢
  obtain ⟨hreach, hfilters⟩ := retrieval_serveSearch.mp h
  exact retrieval_serveSearch.mpr ⟨⟨hget, hreach.2⟩, hfilters⟩

theorem retrieval_of_limited (h : m.allowed = false) (fields : Fields) :
    retrieval (searchPageFromUrl fromIsoformat m fields) = none := by
  refine (serveSearch_of_not_reaches ?_).1
  rintro ⟨ha, -⟩
  rw [h] at ha
  cases ha

theorem writtenUrl_some {popstateInFlight : Bool}
    (h : writtenUrl fromIsoformat m popstateInFlight form = some url) :
    url = nextUrl form.entries ∧ successful (searchPartial fromIsoformat m form.entries) = true := by
  unfold writtenUrl afterRequest at h
  split at h
  · cases h
  · split at h
    · rename_i hs
      exact ⟨(Option.some.inj h).symm, hs⟩
    · cases h

/-- A search that succeeded with a query and a status did retrieve. -/
theorem retrieval_of_successful (hquery : strip form.query ≠ []) (hne : form.statuses ≠ [])
    (h : successful (searchPartial fromIsoformat m form.entries) = true) :
    ∃ r, retrieval (searchPartial fromIsoformat m form.entries) = some r := by
  rw [searchPartial_entries, selectedStatuses_checked] at h ⊢
  by_cases hr : Reaches m form.query true form.statuses
  · rw [serveSearch_of_reaches hr] at h ⊢
    cases hf : filtersFromForm fromIsoformat (checked form.statuses) true form.repo
        (checked form.docTypes) form.owner form.lastReviewedAfter form.tags with
    | error exc =>
      rw [hf] at h
      cases h
    | ok filters => exact ⟨_, rfl⟩
  · rcases ((serveSearch_of_not_reaches hr).2 h).2 with hq | ⟨-, -, hs⟩
    · exact absurd hq hquery
    · exact absurd hs hne

theorem query_length_of_successful (hquery : strip form.query ≠ [])
    (h : successful (searchPartial fromIsoformat m form.entries) = true) :
    (strip form.query).length ≤ maxQueryLength := by
  rw [searchPartial_entries] at h
  by_cases hr : Reaches m form.query true (selectedStatuses (checked form.statuses))
  · exact hr.2.2.1
  · rcases ((serveSearch_of_not_reaches hr).2 h).2 with hq | ⟨hl, -⟩
    · exact absurd hq hquery
    · exact hl

/-- Without a status parameter the default statuses are searched, if the rail can be read. -/
theorem retrieval_searchPageFromUrl_of_nil (hquery : strip form.query ≠ [])
    (hlength : (strip form.query).length ≤ maxQueryLength) (hnil : form.statuses = []) :
    retrieval (searchPageFromUrl fromIsoformat m (openUrl replace (nextUrl form.entries))) = none ↔
      m.allowed = false ∨ form.Overfull := by
  have hnone : checked form.statuses = none := by rw [hnil]; rfl
  have hdoc : ((checked form.docTypes).getD []).length ≤ maxFilterItems := by
    unfold checked
    split
    · exact Nat.zero_le _
    · exact docTypes_length
  have hraw : ((rawStatuses none false).filter (· ∈ validStatuses)).length ≤ maxFilterItems :=
    (List.length_filter_le _ _).trans (by decide)
  have hfits : (∃ filters, filtersFromForm fromIsoformat none false form.repo
      (checked form.docTypes) form.owner form.lastReviewedAfter form.tags = .ok filters) ↔
        ¬form.Overfull := by
    rw [filtersFromForm_returns_iff]
    simp [SearchForm.Overfull, hdoc, hraw]
  rw [searchPageFromUrl_nextUrl, hnone, Option.eq_none_iff_forall_ne_some]
  constructor
  · intro h
    by_contra hcontra
    rw [not_or, Bool.not_eq_false] at hcontra
    obtain ⟨filters, hf⟩ := hfits.mpr hcontra.2
    exact h _ (retrieval_serveSearch.mpr
      ⟨⟨hcontra.1, hquery, hlength, by simp⟩, filters, hf, rfl⟩)
  · rintro h r hr
    obtain ⟨⟨ha, -⟩, filters, hf, -⟩ := retrieval_serveSearch.mp hr
    rcases h with h | h
    · rw [h] at ha
      cases ha
    · exact hfits.mp ⟨filters, hf⟩ h

/-- **Sharing a search.** The URL repeats the search of the form exactly when a status is
checked and the limiter lets the visitor through; with none checked, only if the visitor's
request searches nothing either. -/
theorem shared_search_iff {popstateInFlight : Bool} (hquery : strip form.query ≠ [])
    (hurl : writtenUrl fromIsoformat atPost popstateInFlight form = some url) :
    retrieval (searchPageFromUrl fromIsoformat atGet (openUrl replace url)) =
        retrieval (searchPartial fromIsoformat atPost form.entries) ↔
      (∃ s, form.status s = true) ∧ atGet.allowed = true ∨
        (∀ s, form.status s = false) ∧ (atGet.allowed = false ∨ form.Overfull) := by
  obtain ⟨rfl, hok⟩ := writtenUrl_some hurl
  by_cases hnil : form.statuses = []
  · have hnone := statuses_eq_nil.mp hnil
    rw [retrieval_searchPartial_of_nil hnil, retrieval_searchPageFromUrl_of_nil hquery
      (query_length_of_successful hquery hok) hnil]
    simp [hnone]
  · obtain ⟨r, hr⟩ := retrieval_of_successful hquery hnil hok
    have hsome : ∃ s, form.status s = true := by
      simpa using fun h => hnil (statuses_eq_nil.mpr h)
    rw [hr]
    cases ha : atGet.allowed with
    | false =>
      rw [retrieval_of_limited ha]
      obtain ⟨s, hs⟩ := hsome
      have hsome : ¬∀ s, form.status s = false := fun h => by
        rw [h s] at hs
        cases hs
      simp [hsome]
    | true =>
      rw [searchPageFromUrl_eq hnil, retrieval_searchPartial ha hr]
      simp [hsome]

end

/-- A search for `tls` with the boxes of `status` checked and nothing in the rail. -/
def tlsForm (status : Status → Bool) : SearchForm where
  query := "tls"
  status := status
  docType _ := false
  repo := []
  owner := []
  lastReviewedAfter := []
  tags := []

/-- A request that is let through, whatever it searches. -/
def quiet : Moment := ⟨true, fun _ => 200⟩

/-- A search among the drafts, shared and opened. -/
theorem shared_search_iff_draft :
    let form := tlsForm (· = .draft)
    writtenUrl (fun _ => none) quiet false form = some "/search?q=tls&status=draft".toList ∧
      retrieval (searchPageFromUrl (fun _ => none) quiet
          (openUrl (fun _ => []) "/search?q=tls&status=draft".toList)) =
        retrieval (searchPartial (fun _ => none) quiet form.entries) := by
  intro form
  have hurl : writtenUrl (fun _ => none) quiet false form =
      some "/search?q=tls&status=draft".toList := by decide +kernel
  exact ⟨hurl, (shared_search_iff (by decide) hurl).mpr (.inl ⟨⟨.draft, rfl⟩, rfl⟩)⟩

/-- With no status checked the form searches nothing, and its URL the default statuses. -/
theorem unchecked_search_not_repeated :
    let form := tlsForm fun _ => false
    strip form.query ≠ [] ∧
      writtenUrl (fun _ => none) quiet false form = some "/search?q=tls".toList ∧
      retrieval (searchPartial (fun _ => none) quiet form.entries) = none ∧
      retrieval (searchPageFromUrl (fun _ => none) quiet
          (openUrl (fun _ => []) "/search?q=tls".toList)) =
        some ⟨"tls", { status := some ⟨[.active, .approved], by decide⟩ }, 20⟩ := by
  intro form
  have hurl : writtenUrl (fun _ => none) quiet false form = some "/search?q=tls".toList := by
    decide +kernel
  refine ⟨by decide, hurl, retrieval_searchPartial_of_nil rfl, ?_⟩
  rw [(writtenUrl_some hurl).1, searchPageFromUrl_nextUrl]
  rfl

end KnowledgeKiln.L4.UrlState
