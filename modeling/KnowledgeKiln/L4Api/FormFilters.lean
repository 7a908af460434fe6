import KnowledgeKiln.L4Api.UrlState

/-!
# The filters of a form

`filters_from_form` behind `POST /search`, for any form, the hand-crafted ones included. The
handler stops a form whose marker came without a known status; a form without the marker passes,
and its unknown statuses are dropped until none may be left.

* `filtersFromForm_ok`: what each field of the filters says.
* `status_constrained_iff`: when the engine is given statuses.
* `bogus_status`: a form that searches every status.
-/
namespace KnowledgeKiln.L4.UrlState

open KnowledgeKiln.Core KnowledgeKiln.L2

/-! ## The fields of the filters -/

section
variable {fromIsoformat : Str → Option Date} {status : Option (List Str)} {fs : Bool} {repo : Str}
  {docType : Option (List Str)} {owner lastReviewedAfter tags : Str} {filters : RetrievalFilters}

/-- No list is longer than a field of `RetrievalFilters` takes. -/
def Fits (status : Option (List Str)) (fs : Bool) (repo : Str) (docType : Option (List Str))
    (owner tags : Str) : Prop :=
  ((rawStatuses status fs).filter (· ∈ validStatuses)).length ≤ maxFilterItems ∧
    (splitCsv repo).length ≤ maxFilterItems ∧ (docType.getD []).length ≤ maxFilterItems ∧
    (splitCsv owner).length ≤ maxFilterItems ∧ (splitCsv tags).length ≤ maxFilterItems

theorem filterList_ok {α : Type} {xs : List α} {field : Option (FilterList α)}
    (h : filterList xs = .ok field) :
    field.map Subtype.val = if xs = [] then none else some xs := by
  unfold filterList at h
  split at h
  · rename_i hnil
    cases h
    rw [if_pos hnil]
    rfl
  · rename_i hne
    split at h
    · cases h
      rw [if_neg hne]
      rfl
    · cases h

theorem toStatus_value {s : Str} {b : Status} (h : toStatus s = .ok b) : b.value = s := by
  unfold toStatus at h
  split at h
  · rename_i hf
    cases h
    simpa using List.find?_some hf
  · cases h

/-- What the filters say, field by field. -/
structure FiltersOk (fromIsoformat : Str → Option Date) (status : Option (List Str)) (fs : Bool)
    (repo : Str) (docType : Option (List Str)) (owner lastReviewedAfter tags : Str)
    (filters : RetrievalFilters) : Prop where
  status_eq : filters.status.map (fun ss => ss.val.map Status.value) =
    if (rawStatuses status fs).filter (· ∈ validStatuses) = [] then none
    else some ((rawStatuses status fs).filter (· ∈ validStatuses))
  repo_eq : filters.repo.map Subtype.val =
    if splitCsv repo = [] then none else some (splitCsv repo)
  docType_eq : filters.docType.map Subtype.val =
    if docType.getD [] = [] then none else some (docType.getD [])
  owner_eq : filters.owner.map Subtype.val =
    if splitCsv owner = [] then none else some (splitCsv owner)
  tags_eq : filters.tags.map Subtype.val =
    if splitCsv tags = [] then none else some (splitCsv tags)
  lastReviewedAfter_eq : filters.lastReviewedAfter = parseIsoDate fromIsoformat lastReviewedAfter

theorem filtersFromForm_ok
    (h : filtersFromForm fromIsoformat status fs repo docType owner lastReviewedAfter tags =
      .ok filters) :
    FiltersOk fromIsoformat status fs repo docType owner lastReviewedAfter tags filters := by
  unfold filtersFromForm at h
  obtain ⟨sts, hm, h⟩ := Py.bind_ok.mp h
  obtain ⟨st, hs, h⟩ := Py.bind_ok.mp h
  obtain ⟨rp, hr, h⟩ := Py.bind_ok.mp h
  obtain ⟨dt, hd, h⟩ := Py.bind_ok.mp h
  obtain ⟨ow, ho, h⟩ := Py.bind_ok.mp h
  obtain ⟨tg, ht, h⟩ := Py.bind_ok.mp h
  cases h
  refine ⟨?_, filterList_ok hr, filterList_ok hd, filterList_ok ho, filterList_ok ht, rfl⟩
  have hvalues : sts.map Status.value = (rawStatuses status fs).filter (· ∈ validStatuses) := by
    have hf := Py.mapM_forall₂ hm
    rw [← List.forall₂_eq_eq_eq, List.forall₂_map_left_iff]
    exact hf.flip.imp fun _ _ he => toStatus_value he
  have hst := congrArg (Option.map (List.map Status.value)) (filterList_ok hs)
  rw [Option.map_map] at hst
  rw [← hvalues]
  refine hst.trans ?_
  by_cases hnil : sts = []
  · simp [hnil]
  · simp [hnil]

end

/-! ## The statuses of a search -/

section
variable {fromIsoformat : Str → Option Date} {m : Moment} {form : Fields}

/-- The hidden `_filters_set` came with the form. -/
def marked (form : Fields) : Bool := strParam "_filters_set" form ≠ []

/-- The handler gets as far as its filters. -/
def ReachesFilters (m : Moment) (form : Fields) : Prop :=
  Reaches m (strParam "query" form) (marked form) (selectedStatuses (listParam "status" form))

/-- No list of the form is too long. -/
def FormFits (form : Fields) : Prop :=
  Fits (listParam "status" form) (marked form) (strParam "repo" form) (listParam "doc_type" form)
    (strParam "owner" form) (strParam "tags" form)

/-- The filters of the form. -/
def formFilters (fromIsoformat : Str → Option Date) (form : Fields) : Py RetrievalFilters :=
  filtersFromForm fromIsoformat (listParam "status" form) (marked form) (strParam "repo" form)
    (listParam "doc_type" form) (strParam "owner" form) (strParam "last_reviewed_after" form)
    (strParam "tags" form)

/-- The engine is called with at least one status, and only with known ones. -/
def ConstrainsStatus (served : Py Served) : Prop :=
  ∃ r statuses, retrieval served = some r ∧ r.filters.status = some statuses ∧
    statuses.val ≠ [] ∧ ∀ s ∈ statuses.val, s.value ∈ validStatuses

theorem value_mem_validStatuses (s : Status) : s.value ∈ validStatuses := by
  cases s <;> decide

theorem listParam_eq_none {name : Str} : listParam name form = none ↔ values name form = [] := by
  unfold listParam
  cases values name form <;> simp

theorem listParam_getD {name : Str} : (listParam name form).getD [] = values name form := by
  unfold listParam
  cases values name form <;> rfl

theorem filter_valid_ne_nil {statuses : List Str} :
    statuses.filter (· ∈ validStatuses) ≠ [] ↔ ∃ s ∈ statuses, s ∈ validStatuses := by
  rw [Ne, List.filter_eq_nil_iff]
  push Not
  simp only [decide_eq_true_eq]

/-- A known status is left, or the form named none and the defaults apply. -/
theorem selected_ne_nil_iff {status : Option (List Str)} {fs : Bool} :
    (rawStatuses status fs).filter (· ∈ validStatuses) ≠ [] ↔
      (fs = false ∧ status = none) ∨ ∃ s ∈ status.getD [], s ∈ validStatuses := by
  rw [filter_valid_ne_nil]
  cases fs with
  | true => simp [rawStatuses]
  | false =>
    cases status with
    | none =>
      have hdefault : ∃ s ∈ defaultStatuses, s ∈ validStatuses := by decide
      simpa [rawStatuses] using hdefault
    | some statuses => simp [rawStatuses]

/-- The handler has stopped a marked form without a known status. -/
theorem exists_known_of_marked (hreach : ReachesFilters m form) (hm : marked form = true) :
    ∃ s ∈ values "status" form, s ∈ validStatuses := by
  have hne : selectedStatuses (listParam "status" form) ≠ [] := fun h => hreach.2.2.2 ⟨hm, h⟩
  rwa [selectedStatuses, filter_valid_ne_nil, listParam_getD] at hne

/-- When `POST /search` searches, and for what. -/
theorem retrieval_searchPartial_iff {r : Retrieval} :
    retrieval (searchPartial fromIsoformat m form) = some r ↔ ReachesFilters m form ∧
      ∃ filters, formFilters fromIsoformat form = .ok filters ∧
        r = ⟨strip (strParam "query" form), filters, 20⟩ :=
  retrieval_serveSearch

theorem formFilters_returns_iff :
    (∃ filters, formFilters fromIsoformat form = .ok filters) ↔ FormFits form :=
  filtersFromForm_returns_iff

/-- **The statuses of a form.** Among the forms that get as far as the filters: those whose lists
fit, and which bring the marker, no status at all, or a known one. -/
theorem status_constrained_iff (fromIsoformat : Str → Option Date) (m : Moment) (form : Fields)
    (hreach : ReachesFilters m form) :
    ConstrainsStatus (searchPartial fromIsoformat m form) ↔
      FormFits form ∧ (strParam "_filters_set" form = [] → values "status" form = [] ∨
        ∃ s ∈ values "status" form, s ∈ validStatuses) := by
  have hleft : (strParam "_filters_set" form = [] → values "status" form = [] ∨
      ∃ s ∈ values "status" form, s ∈ validStatuses) ↔
        (rawStatuses (listParam "status" form) (marked form)).filter (· ∈ validStatuses) ≠ [] := by
    rw [selected_ne_nil_iff, listParam_eq_none, listParam_getD]
    by_cases hm : strParam "_filters_set" form = []
    · rw [marked, decide_eq_false (not_not.mpr hm)]
      exact ⟨fun h => (h hm).imp_left fun hv => ⟨rfl, hv⟩, fun h _ => h.imp_left And.right⟩
    · have hknown := exists_known_of_marked hreach (decide_eq_true hm)
      exact ⟨fun _ => .inr hknown, fun _ h => absurd h hm⟩
  rw [hleft]
  constructor
  · rintro ⟨r, statuses, hr, hst, hne, -⟩
    obtain ⟨-, filters, hf, rfl⟩ := retrieval_searchPartial_iff.mp hr
    refine ⟨formFilters_returns_iff.mp ⟨filters, hf⟩, fun hnil => ?_⟩
    have heq := (filtersFromForm_ok hf).status_eq
    dsimp only at hst
    rw [hst, if_pos hnil] at heq
    cases heq
  · rintro ⟨hfits, hne⟩
    obtain ⟨filters, hf⟩ := (@formFilters_returns_iff fromIsoformat form).mpr hfits
    have heq := (filtersFromForm_ok hf).status_eq
    rw [if_neg hne] at heq
    obtain ⟨statuses, hst, hval⟩ := Option.map_eq_some_iff.mp heq
    refine ⟨⟨_, filters, 20⟩, statuses, retrieval_searchPartial_iff.mpr ⟨hreach, filters, hf, rfl⟩,
      hst, ?_, fun s _ => value_mem_validStatuses s⟩
    intro hnil
    rw [hnil] at hval
    exact hne hval.symm

end

/-- A marked form with one known status and one unknown. -/
theorem status_constrained_marked :
    let form : Fields := [("query".toList, "tls".toList), ("_filters_set".toList, "1".toList),
      ("status".toList, "draft".toList), ("status".toList, "bogus".toList)]
    ConstrainsStatus (searchPartial (fun _ => none) quiet form) := by
  intro form
  refine (status_constrained_iff (fun _ => none) quiet form ?_).mpr ⟨?_, ?_⟩
  · unfold ReachesFilters Reaches
    decide +kernel
  · unfold FormFits Fits
    decide +kernel
  · decide +kernel

/-- Without the marker an unknown status is dropped, and the engine searches all of them. -/
theorem bogus_status :
    let form : Fields := [("query".toList, "tls".toList), ("status".toList, "bogus".toList)]
    ReachesFilters quiet form ∧
      retrieval (searchPartial (fun _ => none) quiet form) = some ⟨"tls", {}, 20⟩ ∧
      ¬ConstrainsStatus (searchPartial (fun _ => none) quiet form) := by
  intro form
  have hr : retrieval (searchPartial (fun _ => none) quiet form) = some ⟨"tls", {}, 20⟩ := by
    rfl
  refine ⟨?_, hr, ?_⟩
  · unfold ReachesFilters Reaches
    decide +kernel
  · rintro ⟨r, statuses, h, hst, -⟩
    rw [hr] at h
    cases h
    cases hst

end KnowledgeKiln.L4.UrlState
