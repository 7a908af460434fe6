import KnowledgeKiln.Core.IsoDate
import KnowledgeKiln.L4Api.FormFilters

/-!
# The badge of the filter rail

`rail_filters_active_count` counts the rail fields that are not blank; `filters_from_form` splits
them at commas and whitespace, or reads them as a date.

* `splitCsv_ne_nil_iff`: a text has tokens when it is not all separators.
* `engine_le_badge`: what the engine sees, the badge counts.
* `badge_agrees_iff`: when the two numbers are equal.
-/
namespace KnowledgeKiln.L4.FilterBadge

open KnowledgeKiln.Core KnowledgeKiln.L2 KnowledgeKiln.L4.UrlState

/-! ## The view -/

/-- A value of the view dict. -/
inductive RailValue
  | null
  | text (s : Str)
  | items (xs : List Str)
  /-- Anything else, by its `bool()`. -/
  | other (truthy : Bool)

abbrev FiltersView := List (Str × RailValue)

/-- `_RAIL_FIELDS` (views.py:305-311) -/
def railFields : List Str := ["repo", "doc_type", "owner", "last_reviewed_after", "tags"]

/-- One turn of the loop of `rail_filters_active_count`. -/
def RailValue.active : RailValue → Bool
  | .null => false
  | .items xs => xs ≠ []
  | .text s => strip s ≠ []
  | .other truthy => truthy

/-- mirrors api/views.py:314-349 -/
def railFiltersActiveCount (view : FiltersView) : Nat :=
  railFields.countP fun field => ((lookupFirst view field).getD .null).active

/-- `_filters_view` (web_url_state.py:56-73) -/
def filtersView (repo : Str) (docType : Option (List Str)) (owner lastReviewedAfter tags : Str) :
    FiltersView :=
  [("repo".toList, .text repo), ("doc_type".toList, .items (docType.getD [])),
    ("owner".toList, .text owner), ("last_reviewed_after".toList, .text lastReviewedAfter),
    ("tags".toList, .text tags)]

/-- The rail fields that are a constraint for the engine. -/
def constraintCount (filters : RetrievalFilters) : Nat :=
  [filters.repo.isSome, filters.docType.isSome, filters.owner.isSome,
    filters.lastReviewedAfter.isSome, filters.tags.isSome].countP id

/-- A page without filters carries no badge. -/
example : railFiltersActiveCount (filtersView [] none [] [] []) = 0 := by decide +kernel

/-! ## Two readings of a text -/

section
variable {raw : Str}

/-- A comma or whitespace. -/
def isSeparator (c : Char) : Bool := c == ',' || isSpace c

theorem splitOnP_all_nil {p : Char → Bool} : ∀ {s : Str},
    (∀ part ∈ s.splitOnP p, part = []) ↔ ∀ c ∈ s, p c = true
  | [] => by simp
  | c :: s => by
    rw [List.splitOnP_cons_eq_if_modifyHead, List.forall_mem_cons]
    split
    · rename_i hc
      rw [List.forall_mem_cons, splitOnP_all_nil]
      simp [hc]
    · rename_i hc
      obtain ⟨part, parts, hparts⟩ := List.exists_cons_of_ne_nil (List.splitOnP_ne_nil p s)
      rw [hparts]
      simp [hc]

/-- A text has tokens when it is not all separators. -/
theorem splitCsv_ne_nil_iff : splitCsv raw ≠ [] ↔ ∃ c ∈ raw, isSeparator c = false := by
  have hall : splitCsv raw = [] ↔ ∀ c ∈ strip raw, isSeparator c = true := by
    rw [splitCsv, List.filter_eq_nil_iff, ← splitOnP_all_nil]
    simp only [decide_eq_true_eq, not_not]
    rfl
  rw [Ne, hall]
  push Not
  constructor
  · rintro ⟨c, hc, hs⟩
    obtain ⟨front, back, heq, -⟩ := exists_strip raw
    refine ⟨c, ?_, by simpa using hs⟩
    rw [heq]
    simp [hc]
  · rintro ⟨c, hc, hs⟩
    have hspace : ¬isSpace c = true := by
      rw [(Bool.or_eq_false_iff.mp hs).2]
      exact Bool.false_ne_true
    exact ⟨c, (mem_strip hspace).mpr hc, by simpa using hs⟩

theorem strip_ne_nil_iff : strip raw ≠ [] ↔ ∃ c ∈ raw, isSpace c = false := by
  rw [Ne, strip_eq_nil]
  push Not
  simp only [Bool.not_eq_true]

theorem strip_ne_nil_of_splitCsv (h : splitCsv raw ≠ []) : strip raw ≠ [] := by
  obtain ⟨c, hc, hs⟩ := splitCsv_ne_nil_iff.mp h
  exact strip_ne_nil_iff.mpr ⟨c, hc, (Bool.or_eq_false_iff.mp hs).2⟩

/-- A digit is not whitespace. -/
theorem isSpace_of_isDigit {c : Char} (h : c.isDigit = true) : isSpace c = false := by
  obtain ⟨hlow, hhigh⟩ := Char.isDigit_iff_toNat.mp h
  have hlow : 48 ≤ c.toNat := hlow
  have hhigh : c.toNat ≤ 57 := hhigh
  simp [isSpace]
  omega

/-- A date that can be read is not blank. -/
theorem strip_ne_nil_of_date (h : (parseIsoDate Date.fromIsoformat raw).isSome) :
    strip raw ≠ [] := by
  unfold parseIsoDate at h
  split at h
  · cases h
  · obtain ⟨d, hd⟩ := Option.isSome_iff_exists.mp h
    obtain ⟨c, hc, hdigit⟩ := Date.exists_digit_of_fromIsoformat hd
    exact strip_ne_nil_iff.mpr ⟨c, hc, isSpace_of_isDigit hdigit⟩

end

/-! ## Two counts -/

section
variable {status : Option (List Str)} {fs : Bool} {repo : Str} {docType : Option (List Str)}
  {owner lastReviewedAfter tags : Str} {filters : RetrievalFilters}

/-- The flags of the badge. -/
def badgeFlags (repo : Str) (docType : Option (List Str)) (owner lastReviewedAfter tags : Str) :
    List Bool :=
  [strip repo ≠ [], docType.getD [] ≠ [], strip owner ≠ [], strip lastReviewedAfter ≠ [],
    strip tags ≠ []]

/-- The flags of the engine. -/
def engineFlags (repo : Str) (docType : Option (List Str)) (owner lastReviewedAfter tags : Str) :
    List Bool :=
  [splitCsv repo ≠ [], docType.getD [] ≠ [], splitCsv owner ≠ [],
    (parseIsoDate Date.fromIsoformat lastReviewedAfter).isSome, splitCsv tags ≠ []]

theorem railCount_eq :
    railFiltersActiveCount (filtersView repo docType owner lastReviewedAfter tags) =
      (badgeFlags repo docType owner lastReviewedAfter tags).countP id := by
  have hflags : badgeFlags repo docType owner lastReviewedAfter tags = railFields.map fun field =>
      ((lookupFirst (filtersView repo docType owner lastReviewedAfter tags) field).getD
        .null).active := rfl
  rw [hflags, List.countP_map]
  rfl

theorem isSome_of_map {α β : Type} {o : Option α} {f : α → List β} {xs : List β}
    (h : o.map f = if xs = [] then none else some xs) : o.isSome = decide (xs ≠ []) := by
  rw [← Option.isSome_map (f := f), h]
  split
  · rename_i hnil
    simp [hnil]
  · rename_i hne
    simp [hne]

theorem constraintCount_eq
    (h : FiltersOk Date.fromIsoformat status fs repo docType owner lastReviewedAfter tags filters) :
    constraintCount filters =
      (engineFlags repo docType owner lastReviewedAfter tags).countP id := by
  rw [constraintCount, isSome_of_map h.repo_eq, isSome_of_map h.docType_eq,
    isSome_of_map h.owner_eq, isSome_of_map h.tags_eq, h.lastReviewedAfter_eq]
  rfl

/-- Flags that imply others are as many as those only if they are the same. -/
theorem countP_id_mono {bs bs' : List Bool}
    (h : List.Forall₂ (fun b b' => b = true → b' = true) bs bs') :
    bs.countP id ≤ bs'.countP id ∧ (bs'.countP id = bs.countP id → bs' = bs) := by
  induction h with
  | nil => exact ⟨le_rfl, fun _ => rfl⟩
  | @cons b b' bs bs' hb _ ih =>
    obtain ⟨hle, heq⟩ := ih
    cases b with
    | true =>
      rw [hb rfl]
      simp only [List.countP_cons, id, if_true]
      exact ⟨by omega, fun h => by rw [heq (by omega)]⟩
    | false =>
      cases b' with
      | true =>
        simp only [List.countP_cons, id, if_true, Bool.false_eq_true, if_false]
        exact ⟨by omega, fun h => by omega⟩
      | false =>
        simp only [List.countP_cons, id, Bool.false_eq_true, if_false]
        exact ⟨by omega, fun h => by rw [heq (by omega)]⟩

theorem csv_agrees_iff {raw : Str} : decide (strip raw ≠ []) = decide (splitCsv raw ≠ []) ↔
    (strip raw ≠ [] → ∃ c ∈ raw, isSeparator c = false) := by
  rw [decide_eq_decide, ← splitCsv_ne_nil_iff]
  exact ⟨Iff.mp, fun h => ⟨h, strip_ne_nil_of_splitCsv⟩⟩

theorem date_agrees_iff {raw : Str} :
    decide (strip raw ≠ []) = (parseIsoDate Date.fromIsoformat raw).isSome ↔
      (strip raw ≠ [] → (Date.fromIsoformat raw).isSome) := by
  have hparse : strip raw ≠ [] → parseIsoDate Date.fromIsoformat raw = Date.fromIsoformat raw :=
    fun h => if_neg fun hnil => h (by rw [hnil, strip_nil])
  constructor
  · intro h hne
    rw [decide_eq_true hne, hparse hne] at h
    exact h.symm
  · intro h
    by_cases hne : strip raw = []
    · have hnone : (parseIsoDate Date.fromIsoformat raw).isSome = false :=
        Bool.eq_false_iff.mpr fun hd => strip_ne_nil_of_date hd hne
      rw [hnone, decide_eq_false (not_not.mpr hne)]
    · rw [decide_eq_true hne, hparse hne, h hne]

/-- What the engine sees, the badge counts. -/
theorem engine_le_badge : List.Forall₂ (fun b b' => b = true → b' = true)
    (engineFlags repo docType owner lastReviewedAfter tags)
    (badgeFlags repo docType owner lastReviewedAfter tags) := by
  have hcsv : ∀ raw, decide (splitCsv raw ≠ []) = true → decide (strip raw ≠ []) = true :=
    fun raw h => decide_eq_true (strip_ne_nil_of_splitCsv (of_decide_eq_true h))
  refine .cons (hcsv repo) (.cons id (.cons (hcsv owner) (.cons ?_ (.cons (hcsv tags) .nil))))
  exact fun h => decide_eq_true (strip_ne_nil_of_date h)

end

/-- **The badge.** It shows the number of constraints of the engine exactly when no list is too
long, no text is made of separators alone, and the date is blank or can be read. -/
theorem badge_agrees_iff (status : Option (List Str)) (fs : Bool) (repo : Str)
    (docType : Option (List Str)) (owner lastReviewedAfter tags : Str) :
    (∃ filters, filtersFromForm Date.fromIsoformat status fs repo docType owner lastReviewedAfter
        tags = .ok filters ∧
      railFiltersActiveCount (filtersView repo docType owner lastReviewedAfter tags) =
        constraintCount filters) ↔
    Fits status fs repo docType owner tags ∧
      (∀ raw ∈ [repo, owner, tags], strip raw ≠ [] → ∃ c ∈ raw, isSeparator c = false) ∧
      (strip lastReviewedAfter ≠ [] → (Date.fromIsoformat lastReviewedAfter).isSome) := by
  have hcount : (badgeFlags repo docType owner lastReviewedAfter tags).countP id =
      (engineFlags repo docType owner lastReviewedAfter tags).countP id ↔
      (∀ raw ∈ [repo, owner, tags], strip raw ≠ [] → ∃ c ∈ raw, isSeparator c = false) ∧
        (strip lastReviewedAfter ≠ [] → (Date.fromIsoformat lastReviewedAfter).isSome) := by
    have hflags : (badgeFlags repo docType owner lastReviewedAfter tags).countP id =
        (engineFlags repo docType owner lastReviewedAfter tags).countP id ↔
        badgeFlags repo docType owner lastReviewedAfter tags =
          engineFlags repo docType owner lastReviewedAfter tags :=
      ⟨(countP_id_mono engine_le_badge).2, fun h => by rw [h]⟩
    rw [hflags, badgeFlags, engineFlags]
    simp only [List.cons.injEq, csv_agrees_iff, date_agrees_iff, List.forall_mem_cons]
    simp only [List.not_mem_nil, false_imp_iff, implies_true, and_true, true_and]
    tauto
  constructor
  · rintro ⟨filters, hf, heq⟩
    rw [railCount_eq, constraintCount_eq (filtersFromForm_ok hf)] at heq
    exact ⟨filtersFromForm_returns_iff.mp ⟨filters, hf⟩, hcount.mp heq⟩
  · rintro ⟨hfits, hagree⟩
    obtain ⟨filters, hf⟩ := (filtersFromForm_returns_iff).mpr hfits
    refine ⟨filters, hf, ?_⟩
    rw [railCount_eq, constraintCount_eq (filtersFromForm_ok hf)]
    exact hcount.mpr hagree

/-- Commas alone, and a date of the wrong form: two on the badge, none for the engine. -/
theorem badge_counts_separators :
    railFiltersActiveCount (filtersView "," none [] "01/05/2024" []) = 2 ∧
      (filtersFromForm Date.fromIsoformat none false "," none [] "01/05/2024" []).map
        constraintCount = .ok 0 ∧
      ¬∃ filters, filtersFromForm Date.fromIsoformat none false "," none [] "01/05/2024" [] =
          .ok filters ∧
        railFiltersActiveCount (filtersView "," none [] "01/05/2024" []) =
          constraintCount filters := by
  have hbadge : railFiltersActiveCount (filtersView "," none [] "01/05/2024" []) = 2 := by
    decide +kernel
  have hengine : (filtersFromForm Date.fromIsoformat none false "," none [] "01/05/2024" []).map
      constraintCount = .ok 0 := by
    rfl
  refine ⟨hbadge, hengine, ?_⟩
  rintro ⟨filters, hf, heq⟩
  rw [hf] at hengine
  rw [hbadge] at heq
  cases heq.trans (Except.ok.inj hengine)

end KnowledgeKiln.L4.FilterBadge
