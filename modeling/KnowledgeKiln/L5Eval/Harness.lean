import KnowledgeKiln.Core.Format
import KnowledgeKiln.L5Eval.Scoring

/-!
# The evaluation harness (eval/dataset.py, eval/runner.py, eval/__main__.py)

A golden set is loaded and checked, each case is searched and scored, and the exit code says
whether every expected hit was in time. The retriever is a parameter: the `i`-th search may answer
anything. The set is read from YAML, whose values are written as JSON; what `str`, `repr` and the
filter model make of a value are parameters too.

* `loadGoldenSet_ok`: a set that is loaded has distinct ids, and hits to expect in each case.
* `allWithinBounds_eq`: the lookup of a case by its id finds that case.
* `eval_verdict`: what the exit code and the scores say about the searches.
-/
namespace KnowledgeKiln.L5

open KnowledgeKiln.Core KnowledgeKiln.L2

/-! ## The golden set -/

/-- What the loader calls to read a value: `str(v)`, `repr(v)`, and `RetrievalFilters(**v)` with
the text of its error. -/
structure Reader where
  str : Json → Str
  repr : Json → Str
  filters : JsonDict → Except Str RetrievalFilters

/-- `GoldenSetError` is a `ValueError`. -/
def goldenSetError (text : Str) : PyExc := .valueError text

/-- `isinstance(v, int)`; a `bool` is one. -/
def asInt : Json → Option Int
  | .int n => some n
  | .bool b => some (if b then 1 else 0)
  | _ => none

/-- All of a list that are strings, or nothing. -/
def strItems : List Json → Option (List Str)
  | [] => some []
  | .str s :: items => (strItems items).map (s :: ·)
  | _ :: _ => none

section
variable (reader : Reader) (path : Str)

/-- `case '…' expected[…]`, the beginning of an error text -/
def hitLabel (caseId : Json) (idx : Nat) : Str :=
  "case '".toList ++ reader.str caseId ++ "' expected[" ++ natStr idx ++ "]"

/-- Mirrors `_parse_hit` (dataset.py:122-145). -/
def parseHit (caseId : Json) (idx : Nat) : Json → Py ExpectedHit
  | .obj entry =>
    let label := hitLabel reader caseId idx
    match JsonDict.get entry "repo", JsonDict.get entry "path" with
    | none, _ => throw (goldenSetError (label ++ " missing 'repo'"))
    | some _, none => throw (goldenSetError (label ++ " missing 'path'"))
    | some repo, some docPath =>
      match (JsonDict.get entry "heading_path").getD (.arr []) with
      | .arr items =>
        match strItems items with
        | none => throw (goldenSetError (label ++ " heading_path must be a list of strings"))
        | some headingPath =>
          match asInt ((JsonDict.get entry "must_appear_within_k").getD (.int 10)) with
          | some n =>
            if n ≤ 0 then
              throw (goldenSetError (label ++ " must_appear_within_k must be a positive int"))
            else
              pure { repo := reader.str repo, path := reader.str docPath, headingPath,
                     mustAppearWithinK := n.toNat }
          | none => throw (goldenSetError (label ++ " must_appear_within_k must be a positive int"))
      | _ => throw (goldenSetError (label ++ " heading_path must be a list of strings"))
  | _ => throw (goldenSetError (hitLabel reader caseId idx ++ " is not a mapping"))

def parseHits (caseId : Json) (idx : Nat) : List Json → Py (List ExpectedHit)
  | [] => pure []
  | entry :: entries => do
    let hit ← parseHit reader caseId idx entry
    let hits ← parseHits caseId (idx + 1) entries
    pure (hit :: hits)

/-- Mirrors `_parse_case` (dataset.py:91-119). -/
def parseCase (idx : Nat) (entry : JsonDict) : Py GoldenCase :=
  let missing := fun key : Str => goldenSetError <|
    path ++ ": case " ++ natStr idx ++ " missing '" ++ key ++ "'"
  match JsonDict.get entry "case_id", JsonDict.get entry "query", JsonDict.get entry "expected" with
  | none, _, _ => throw (missing "case_id")
  | some _, none, _ => throw (missing "query")
  | some _, some _, none => throw (missing "expected")
  | some caseId, some query, some expected =>
    let label : Str := path ++ ": case '" ++ reader.str caseId ++ "'"
    match expected with
    | .arr (entry' :: entries) => do
      let expected ← parseHits reader caseId 0 (entry' :: entries)
      let filters := (JsonDict.get entry "filters").getD .null
      match if filters.truthy then filters else .obj [] with
      | .obj filters =>
        match reader.filters filters with
        | .ok _ =>
          pure { caseId := reader.str caseId, query := reader.str query, filters, expected,
                 notes := (JsonDict.get entry "notes").getD .null }
        | .error text => throw (goldenSetError (label ++ " has invalid filters: " ++ text))
      | _ => throw (goldenSetError (label ++ " filters must be a mapping"))
    | _ => throw (goldenSetError (label ++ " must have at least one expected hit"))

/-- The loop of `load_golden_set`; `seen` are the ids so far. -/
def parseCases (seen : List Str) (idx : Nat) : List Json → Py (List GoldenCase)
  | [] => pure []
  | .obj entry :: entries => do
    let case ← parseCase reader path idx entry
    if case.caseId ∈ seen then
      throw (goldenSetError (path ++ ": duplicate case_id '" ++ case.caseId ++ "'"))
    else do
      let cases ← parseCases (case.caseId :: seen) (idx + 1) entries
      pure (case :: cases)
  | _ :: _ =>
    throw (goldenSetError (path ++ ": case " ++ natStr idx ++ " is not a mapping"))

/-- `version not in SUPPORTED_VERSIONS`, for the set of the number 1 -/
def unsupported (version : Json) : Py Bool :=
  match version with
  | .arr _ | .obj _ => throw (.external "TypeError: unhashable type".toList)
  | .int n => pure (n ≠ 1)
  | .bool b => pure !b
  | .float repr => pure (repr ≠ "1.0")
  | _ => pure true

/-- Mirrors `load_golden_set` (dataset.py:61-88), of the parsed YAML. -/
def loadGoldenSet (raw : Json) : Py (List GoldenCase) :=
  match raw with
  | .obj members =>
    match JsonDict.get members "cases" with
    | none => throw (goldenSetError (path ++ ": top-level 'cases' key missing"))
    | some cases => do
      let version := (JsonDict.get members "version").getD (.int 1)
      if ← unsupported version then
        throw (goldenSetError (path ++ ": unsupported schema version " ++ reader.repr version ++
          "; this loader handles [1]"))
      else
        match cases with
        | .arr (entry :: entries) => parseCases reader path [] 0 (entry :: entries)
        | _ => throw (goldenSetError (path ++ ": 'cases' must be a non-empty list"))
  | _ => throw (goldenSetError (path ++ ": top-level 'cases' key missing"))

end

/-! ## The run -/

/-- scoring.py:126-132 -/
structure EvalReport where
  perCase : List CaseResult
  aggregate : AggregateMetrics
  kValues : List Int

/-- `retriever.search`, by the number of the search: the query, the filters and `max_results`. -/
abbrev Search := Nat → Str → RetrievalFilters → Int → Py Ranking

section
variable (reader : Reader) (search : Search)

/-- One turn of the loop: the search of a case. -/
def searchCase (topK : Int) (idx : Nat) (case : GoldenCase) : Py Ranking :=
  match reader.filters case.filters with
  | .error _ => throw (.validationError "RetrievalFilters")
  | .ok filters => search idx case.query filters topK

/-- The searches one after the other. -/
def searchCases (topK : Int) : Nat → List GoldenCase → Py (List (GoldenCase × Ranking))
  | _, [] => pure []
  | idx, case :: cases => do
    let ranking ← searchCase reader search topK idx case
    let rest ← searchCases topK (idx + 1) cases
    pure ((case, ranking) :: rest)

/-- Mirrors `run_eval` (runner.py:24-58); with the report, the rankings it scored. -/
def runEval (cases : List GoldenCase) (kValues : List Int) :
    Py (EvalReport × List (GoldenCase × Ranking)) :=
  match kValues with
  | [] => throw (.valueError "k_values must be non-empty")
  | k :: ks =>
    if (k :: ks).any fun k => k ≤ 0 then
      throw <| .valueError <| "k_values must all be positive, got (".toList ++
        join ", " ((k :: ks).map intStr) ++ (if ks = [] then ",)" else ")" : String).toList
    else do
      let searched ← searchCases reader search (ks.foldl max k) 0 cases
      let perCase := searched.map fun s => scoreOne s.1 s.2 (k :: ks)
      pure ({ perCase, aggregate := aggregate perCase (k :: ks), kValues := k :: ks }, searched)

end

/-! ## The verdict -/

/-- The inner loop of `_all_within_bounds`; `zip` is strict. -/
def hitsWithinBounds : List ExpectedHit → List (Option Nat) → Py Bool
  | [], [] => pure true
  | hit :: hits, rank :: ranks =>
    if rankedBelow hit.mustAppearWithinK rank then hitsWithinBounds hits ranks else pure false
  | _, _ => throw (.valueError "zip() arguments have different lengths")

/-- Mirrors `_all_within_bounds` (__main__.py:108-119). -/
def allWithinBounds (cases : List GoldenCase) : List CaseResult → Py Bool
  | [] => pure true
  | result :: results =>
    match lookupLast (cases.map fun c => (c.caseId, c)) result.caseId with
    | none => pure false
    | some case => do
      if ← hitsWithinBounds case.expected result.perHitRanks then allWithinBounds cases results
      else pure false

/-- The exit code of `_run`, behind the reports. -/
def exitCode (report : EvalReport) (cases : List GoldenCase) : Py Nat := do
  if ← allWithinBounds cases report.perCase then pure 0 else pure 1

/-! ## What is loaded -/

/-- A case that can be scored. -/
structure GoldenCase.Valid (case : GoldenCase) : Prop where
  expected : case.expected ≠ []
  positive : ∀ hit ∈ case.expected, 0 < hit.mustAppearWithinK

section
variable {reader : Reader} {path : Str}

theorem parseHit_positive {caseId entry : Json} {idx : Nat} {hit : ExpectedHit}
    (h : parseHit reader caseId idx entry = .ok hit) : 0 < hit.mustAppearWithinK := by
  unfold parseHit at h
  split at h
  · dsimp only at h
    split at h
    · simp at h
    · simp at h
    · split at h
      · split at h
        · simp at h
        · split at h
          · split at h
            · simp at h
            · rename_i hn
              rw [← Py.pure_ok.mp h]
              exact Int.lt_toNat.mpr (not_le.mp hn)
          · simp at h
      · simp at h
  · simp at h

theorem parseHits_ok {caseId : Json} : ∀ {entries : List Json} {idx : Nat}
    {hits : List ExpectedHit}, parseHits reader caseId idx entries = .ok hits →
    hits.length = entries.length ∧ ∀ hit ∈ hits, 0 < hit.mustAppearWithinK
  | [], _, _, h => by
    cases h
    exact ⟨rfl, nofun⟩
  | entry :: entries, idx, hits, h => by
    obtain ⟨hit, hhit, h⟩ := Py.bind_ok.mp h
    obtain ⟨rest, hrest, h⟩ := Py.bind_ok.mp h
    obtain ⟨hlen, hpos⟩ := parseHits_ok hrest
    rw [← Py.pure_ok.mp h]
    exact ⟨congrArg (· + 1) hlen, List.forall_mem_cons.mpr ⟨parseHit_positive hhit, hpos⟩⟩

theorem parseCase_valid {idx : Nat} {entry : JsonDict} {case : GoldenCase}
    (h : parseCase reader path idx entry = .ok case) : case.Valid := by
  unfold parseCase at h
  dsimp only at h
  split at h
  · simp at h
  · simp at h
  · simp at h
  · split at h
    · obtain ⟨hits, hhits, h⟩ := Py.bind_ok.mp h
      obtain ⟨hlen, hpos⟩ := parseHits_ok hhits
      split at h
      · split at h
        · rw [← Py.pure_ok.mp h]
          refine ⟨fun hnil => ?_, hpos⟩
          dsimp only at hnil
          rw [hnil] at hlen
          cases hlen
        · simp at h
      · simp at h
    · simp at h

/-- Each id is new, to the set and to what was seen before it. -/
theorem parseCases_ok : ∀ {entries : List Json} {seen : List Str} {idx : Nat}
    {cases : List GoldenCase}, parseCases reader path seen idx entries = .ok cases →
    cases.length = entries.length ∧ (cases.map GoldenCase.caseId).Nodup ∧
      (∀ case ∈ cases, case.caseId ∉ seen) ∧ ∀ case ∈ cases, case.Valid
  | [], _, _, _, h => by
    cases h
    exact ⟨rfl, List.nodup_nil, nofun, nofun⟩
  | entry :: entries, seen, idx, cases, h => by
    unfold parseCases at h
    split at h
    · simp_all
    · rename_i members rest heq
      cases heq
      obtain ⟨case, hcase, h⟩ := Py.bind_ok.mp h
      split at h
      · simp at h
      · rename_i hnew
        obtain ⟨rest', hrest, h⟩ := Py.bind_ok.mp h
        obtain ⟨hlen, hnodup, hseen, hvalid⟩ := parseCases_ok hrest
        rw [← Py.pure_ok.mp h]
        refine ⟨congrArg (· + 1) hlen, List.nodup_cons.mpr ⟨fun hmem => ?_, hnodup⟩,
          List.forall_mem_cons.mpr ⟨hnew, fun c hc => ?_⟩,
          List.forall_mem_cons.mpr ⟨parseCase_valid hcase, hvalid⟩⟩
        · obtain ⟨c, hc, he⟩ := List.mem_map.mp hmem
          exact hseen c hc (he ▸ List.mem_cons_self)
        · exact fun hmem => hseen c hc (List.mem_cons_of_mem _ hmem)
    · simp at h

theorem loadGoldenSet_ok {raw : Json} {cases : List GoldenCase}
    (h : loadGoldenSet reader path raw = .ok cases) :
    cases ≠ [] ∧ (cases.map GoldenCase.caseId).Nodup ∧ ∀ case ∈ cases, case.Valid := by
  unfold loadGoldenSet at h
  split at h
  · split at h
    · simp at h
    · obtain ⟨refused, -, h⟩ := Py.bind_ok.mp h
      split at h
      · simp at h
      · split at h
        · obtain ⟨hlen, hnodup, -, hvalid⟩ := parseCases_ok h
          refine ⟨?_, hnodup, hvalid⟩
          rintro rfl
          cases hlen
        · simp at h
  · simp at h

/-! ## What is searched -/

theorem searchCases_ok {search : Search} {topK : Int} : ∀ {cases : List GoldenCase} {idx : Nat}
    {searched : List (GoldenCase × Ranking)},
    searchCases reader search topK idx cases = .ok searched →
    searched.map Prod.fst = cases ∧ ∀ i s, searched[i]? = some s → ∃ filters,
      reader.filters s.1.filters = .ok filters ∧
      search (idx + i) s.1.query filters topK = .ok s.2
  | [], _, _, h => by
    cases h
    exact ⟨rfl, fun i s hs => by simp at hs⟩
  | case :: cases, idx, searched, h => by
    obtain ⟨ranking, hranking, h⟩ := Py.bind_ok.mp h
    obtain ⟨rest, hrest, h⟩ := Py.bind_ok.mp h
    obtain ⟨hfst, hget⟩ := searchCases_ok hrest
    rw [← Py.pure_ok.mp h]
    refine ⟨by rw [List.map_cons, hfst], fun i s hs => ?_⟩
    cases i with
    | zero =>
      cases hs
      unfold searchCase at hranking
      split at hranking
      · simp at hranking
      · rename_i filters hf
        exact ⟨filters, hf, hranking⟩
    | succ i =>
      obtain ⟨filters, hf, hsearch⟩ := hget i s hs
      exact ⟨filters, hf, by rwa [show idx + (i + 1) = idx + 1 + i by omega]⟩

end

/-! ## Bounds -/

/-- Every hit of the case is among as many chunks as it may take. -/
def InBounds (s : GoldenCase × Ranking) : Prop :=
  ∀ hit ∈ s.1.expected, FoundWithin s.2 hit.mustAppearWithinK hit

theorem hitsWithinBounds_eq {ranking : Ranking} : ∀ {hits : List ExpectedHit},
    ∃ b, hitsWithinBounds hits (hits.map (firstMatchingRank ranking)) = .ok b ∧
      (b = true ↔ ∀ hit ∈ hits, FoundWithin ranking hit.mustAppearWithinK hit)
  | [] => ⟨true, rfl, by simp⟩
  | hit :: hits => by
    obtain ⟨b, hb, hiff⟩ := @hitsWithinBounds_eq ranking hits
    rw [List.map_cons, List.forall_mem_cons, ← rankedBelow_iff]
    unfold hitsWithinBounds
    cases rankedBelow hit.mustAppearWithinK (firstMatchingRank ranking hit) with
    | true => exact ⟨b, hb, by simpa using hiff⟩
    | false => exact ⟨false, rfl, by simp⟩

/-- The id of a case leads back to it, so the bounds checked are those of its own hits. -/
theorem allWithinBounds_eq {cases : List GoldenCase} {kValues : List Int}
    (hnodup : (cases.map GoldenCase.caseId).Nodup) : ∀ {searched : List (GoldenCase × Ranking)},
    (∀ s ∈ searched, s.1 ∈ cases) → ∃ b,
      allWithinBounds cases (searched.map fun s => scoreOne s.1 s.2 kValues) = .ok b ∧
      (b = true ↔ ∀ s ∈ searched, InBounds s)
  | [], _ => ⟨true, rfl, by simp⟩
  | s :: searched, hmem => by
    obtain ⟨hs, hrest⟩ := List.forall_mem_cons.mp hmem
    obtain ⟨b, hb, hiff⟩ := allWithinBounds_eq hnodup hrest
    obtain ⟨b', hb', hiff'⟩ := @hitsWithinBounds_eq s.2 s.1.expected
    have hlookup : lookupLast (cases.map fun c => (c.caseId, c)) s.1.caseId = some s.1 := by
      refine lookupLast_of_mem ?_ (List.mem_map.mpr ⟨s.1, hs, rfl⟩)
      simpa [Function.comp_def] using hnodup
    have hcons : allWithinBounds cases ((s :: searched).map fun s => scoreOne s.1 s.2 kValues) =
        if b' then .ok b else .ok false := by
      rw [List.map_cons, allWithinBounds]
      simp only [scoreOne, hlookup]
      rw [hb']
      cases b' with
      | true => exact hb
      | false => rfl
    rw [hcons, List.forall_mem_cons]
    cases b' with
    | true =>
      have hin : InBounds s := hiff'.mp rfl
      exact ⟨b, rfl, fun h => ⟨hin, hiff.mp h⟩, fun h => hiff.mpr h.2⟩
    | false => exact ⟨false, rfl, nofun, fun h => hiff'.mpr h.1⟩

/-! ## The scores of a run -/

section
variable {reader : Reader} {search : Search} {cases : List GoldenCase} {kValues : List Int}
  {report : EvalReport} {searched : List (GoldenCase × Ranking)}

/-- The recall of the report at `k`. -/
def EvalReport.recall (report : EvalReport) (k : Int) : ℚ :=
  (report.aggregate.recallAt.get k).getD 0

/-- A dict comprehension over keys has at each of them what the comprehension says. -/
theorem lookupLast_comprehension {κ α : Type} [DecidableEq κ] {f : κ → α} {k : κ} :
    ∀ {ks : List κ}, k ∈ ks → lookupLast (ks.map fun k => (k, f k)) k = some (f k)
  | k' :: ks, h => by
    rw [List.map_cons, lookupLast_cons]
    by_cases hks : k ∈ ks
    · rw [lookupLast_comprehension hks]
      rfl
    · obtain rfl : k = k' := (List.mem_cons.mp h).resolve_right hks
      rw [if_pos rfl]
      cases hl : lookupLast (ks.map fun k => (k, f k)) k with
      | none => rfl
      | some a =>
        obtain ⟨k'', hk'', he⟩ := List.mem_map.mp (mem_of_lookupLast hl)
        cases he
        exact absurd hk'' hks

theorem scoreOne_recall {s : GoldenCase × Ranking} {k : Int} (hk : k ∈ kValues) :
    ((scoreOne s.1 s.2 kValues).recallAt.get k).getD 0 = recallAtK s.1 s.2 k := by
  unfold scoreOne
  rw [OrderedDict.get_ofPairs, lookupLast_comprehension hk]
  rfl

/-- The `i`-th ranking is the answer to the `i`-th search, made with the query and the filters of
its case for as many chunks as the largest `k`. -/
def Answered (reader : Reader) (search : Search) (kValues : List Int)
    (searched : List (GoldenCase × Ranking)) : Prop :=
  ∃ topK ∈ kValues, (∀ k ∈ kValues, k ≤ topK) ∧ ∀ i s, searched[i]? = some s →
    ∃ filters, reader.filters s.1.filters = .ok filters ∧
      search i s.1.query filters topK = .ok s.2

/-- The report is the mean over the rankings that were scored. -/
theorem runEval_ok (h : runEval reader search cases kValues = .ok (report, searched))
    (hcases : cases ≠ []) :
    (∀ k ∈ kValues, 0 < k) ∧ searched.map Prod.fst = cases ∧
      Answered reader search kValues searched ∧
      report.perCase = searched.map (fun s => scoreOne s.1 s.2 kValues) ∧
      report.aggregate.mrr = mean (fun s => reciprocalRank s.1 s.2) searched ∧
      ∀ k ∈ kValues, report.recall k = mean (fun s => recallAtK s.1 s.2 k) searched := by
  cases kValues with
  | nil => simp [runEval] at h
  | cons k ks =>
    unfold runEval at h
    dsimp only at h
    split at h
    · simp at h
    · rename_i hpos
      obtain ⟨l, hl, h⟩ := Py.bind_ok.mp h
      obtain ⟨hfst, hsearch⟩ := searchCases_ok hl
      obtain ⟨hmem, hmax⟩ := List.max?_eq_some_iff.mp (@List.max?_cons' _ k _ ks)
      cases Py.pure_ok.mp h
      have hne : searched ≠ [] := by
        rintro rfl
        exact hcases hfst.symm
      have hlen : (searched.map fun s => scoreOne s.1 s.2 (k :: ks)).length ≠ 0 := by
        simpa using hne
      refine ⟨by simpa using hpos, hfst, ⟨_, hmem, hmax, fun i s hs => ?_⟩, rfl, ?_,
        fun k' hk => ?_⟩
      · obtain ⟨filters, hf, hranking⟩ := hsearch i s hs
        exact ⟨filters, hf, by rwa [Nat.zero_add] at hranking⟩
      · dsimp only
        unfold aggregate
        rw [if_neg hlen]
        simp [mean, Function.comp_def, scoreOne]
      · unfold EvalReport.recall aggregate
        dsimp only
        rw [if_neg hlen, OrderedDict.get_ofPairs, lookupLast_comprehension hk]
        simp only [mean, List.map_map, Function.comp_def, scoreOne_recall hk, List.length_map,
          Option.getD_some]

/-- Every hit of every search is among the first `k` chunks. -/
def FoundAll (searched : List (GoldenCase × Ranking)) (k : Nat) : Prop :=
  ∀ s ∈ searched, ∀ hit ∈ s.1.expected, FoundWithin s.2 k hit

/-- What a run says of the searches it made, with its exit code. -/
structure Verdict (reader : Reader) (search : Search) (cases : List GoldenCase)
    (kValues : List Int) (report : EvalReport) (searched : List (GoldenCase × Ranking))
    (code : Nat) : Prop where
  /-- one search for each case, in their order -/
  searched_cases : searched.map Prod.fst = cases
  /-- what is scored is what the retriever answered -/
  searched_rankings : Answered reader search kValues searched
  scored : report.perCase = searched.map fun s => scoreOne s.1 s.2 kValues
  code_le : code = 0 ∨ code = 1
  /-- each hit is held to its own bound -/
  code_eq_zero_iff : code = 0 ↔ ∀ s ∈ searched, InBounds s
  recall_mem : ∀ k : Nat, (k : Int) ∈ kValues → 0 ≤ report.recall k ∧ report.recall k ≤ 1
  recall_mono : ∀ k k' : Nat, (k : Int) ∈ kValues → (k' : Int) ∈ kValues → k ≤ k' →
    report.recall k ≤ report.recall k'
  /-- full recall is that of every case -/
  recall_eq_one_iff : ∀ k : Nat, (k : Int) ∈ kValues →
    (report.recall k = 1 ↔ FoundAll searched k)
  /-- the two scores cannot drift apart -/
  recall_le_mrr : ∀ k : Nat, (k : Int) ∈ kValues → report.recall k ≤ k * report.aggregate.mrr
  mrr_le_one : report.aggregate.mrr ≤ 1

/-- **Verdict.** A set that was loaded and searched gets an exit code: zero when every hit of every
case is among as many chunks of the retriever's answer as its own bound allows. Whatever the
retriever answered, recall is a share, grows with `k`, is full when nothing is missing from the
first `k` chunks of any case, and is at most `k` times the mean reciprocal rank. The scores are
exact, without the rounding of floating point. -/
theorem eval_verdict {path : Str} {raw : Json} (hload : loadGoldenSet reader path raw = .ok cases)
    (hrun : runEval reader search cases kValues = .ok (report, searched)) :
    ∃ code, exitCode report cases = .ok code ∧
      Verdict reader search cases kValues report searched code := by
  obtain ⟨hcases, hnodup, hvalid⟩ := loadGoldenSet_ok hload
  obtain ⟨hkpos, hfst, hanswered, hper, hmrr, hrecall⟩ := runEval_ok hrun hcases
  have hpos : ∀ k : Nat, (k : Int) ∈ kValues → 0 < k := fun k hk => by
    have := hkpos _ hk
    omega
  have hmem : ∀ s ∈ searched, s.1 ∈ cases := fun s hs => hfst ▸ List.mem_map_of_mem hs
  have hne : searched ≠ [] := by
    rintro rfl
    exact hcases hfst.symm
  obtain ⟨b, hb, hiff⟩ := @allWithinBounds_eq _ kValues hnodup _ hmem
  refine ⟨if b then 0 else 1, ?_, hfst, hanswered, hper, ?_, ?_, fun k hk => ?_,
    fun k k' hk hk' hkk => ?_, fun k hk => ?_, fun k hk => ?_, ?_⟩
  · unfold exitCode
    rw [hper, hb]
    cases b <;> rfl
  · cases b <;> simp
  · rw [← hiff]
    cases b <;> simp
  · rw [hrecall k hk]
    constructor
    · calc (0 : ℚ) = mean (fun _ => 0) searched := (mean_const hne).symm
        _ ≤ _ := mean_mono fun _ _ => recallAtK_nonneg
    · calc _ ≤ mean (fun _ => 1) searched := mean_mono fun _ _ => recallAtK_le_one
        _ = 1 := mean_const hne
  · rw [hrecall k hk, hrecall k' hk']
    exact mean_mono fun _ _ => recallAtK_mono (hpos k hk) hkk
  · rw [hrecall k hk, mean_eq_iff hne fun _ _ => recallAtK_le_one]
    refine forall₂_congr fun s hs => ?_
    exact recallAtK_eq_one_iff (hvalid _ (hmem s hs)).expected (hpos k hk)
  · rw [hrecall k hk, hmrr, ← mean_mul]
    exact mean_mono fun _ _ => recallAtK_le_reciprocalRank (hpos k hk)
  · rw [hmrr]
    calc _ ≤ mean (fun _ => 1) searched := mean_mono fun _ _ => reciprocalRank_le_one
      _ = 1 := mean_const hne

end

/-- Two cases for one document, the second of them to be found at once. -/
def sampleSet : Json :=
  let hit := fun k : Int => Json.arr [.obj
    [("repo".toList, .str "docs".toList), ("path".toList, .str "a.md".toList),
      ("must_appear_within_k".toList, .int k)]]
  let case := fun (id : String) (k : Int) => Json.obj
    [("case_id".toList, .str id.toList), ("query".toList, .str "quota".toList),
      ("expected".toList, hit k)]
  .obj [("cases".toList, .arr [case "late" 2, case "first" 1])]

def sampleReader : Reader where
  str
    | .str s => s
    | _ => []
  repr _ := []
  filters _ := .ok {}

/-- The document comes second, behind one of another path. -/
def sampleSearch : Search := fun _ _ _ _ =>
  let chunk := fun document : Nat =>
    { chunkId := document, documentId := document, score := 1, status := "canonical".toList
      headingPath := [], authority := none, lastReviewed := none, hasPromptInjection := false
      hasSensitiveContent := false, chunkMetadata := {}, chunkIndex := 0, chunkCount := 1 }
  .ok { chunks := [chunk 1, chunk 2]
        refs := fun document => some
          { documentId := document, title := [], repo := some "docs".toList
            path := some (if document = 2 then "a.md" else "b.md").toList } }

theorem eval_verdict_late : ∃ cases report searched,
    loadGoldenSet sampleReader [] sampleSet = .ok cases ∧
      runEval sampleReader sampleSearch cases [1, 2] = .ok (report, searched) ∧
      exitCode report cases = .ok 1 ∧
      Verdict sampleReader sampleSearch cases [1, 2] report searched 1 := by
  obtain ⟨cases, hload⟩ : ∃ cases, loadGoldenSet sampleReader [] sampleSet = .ok cases := ⟨_, rfl⟩
  have hcases := hload
  cases hload
  obtain ⟨code, hcode, hverdict⟩ :=
    @eval_verdict sampleReader sampleSearch _ [1, 2] _ _ [] sampleSet hcases rfl
  cases hcode
  exact ⟨_, _, _, hcases, rfl, rfl, hverdict⟩

end KnowledgeKiln.L5
