import KnowledgeKiln.Core.IsoDate
import KnowledgeKiln.L1Ingest.FileProcessing
import KnowledgeKiln.L1Ingest.StoredMetadata

/-!
# Review dates (ingestion/_file_processing.py)

A frontmatter gives its review date under one of several names. `parse_document` has the mapping
converted (`jsonify`), which makes a date its ISO text, and `_resolve_doc_defaults` reads the date
back from the first name that is set.

* `reviewed_eq`: the date that is read back, in terms of the mapping before the conversion.
* `review_date`: what `documents.last_reviewed` holds.
-/
namespace KnowledgeKiln.L1.FileProcessing

open KnowledgeKiln.Core
open Chunking (Worker ParsedDocument parseDocument)
open JsonSafe

/-! ## Names of the review date -/

section
variable (rt : Runtime) (h : Heap) (items : List (Value × Value))

/-- What the frontmatter mapping gives under a name. -/
def given (name : Str) : Option Value :=
  lookupLast (items.map fun item => (keyStr rt h item.1, item.2)) name

/-- The value is neither `None` nor an empty text. -/
def isSet : Value → Bool
  | .none => false
  | .str s | .uuid s | .path s => s != []
  | .bytes octets => (rt.decodeUtf8 octets).getD (hexOf octets) != []
  | _ => true

/-- The first name that is set wins. -/
def firstSet : Option Value := (lastReviewedAliases.filterMap (given rt h items)).find? (isSet rt)

/-- The date of a value that is no `datetime`. -/
def isoDate (w : Worker) : Value → Option Date
  | .date d => some d
  | .str s | .uuid s | .path s => w.fromIsoformat s
  | .bytes octets => w.fromIsoformat ((rt.decodeUtf8 octets).getD (hexOf octets))
  | _ => none

end

/-- `date.fromisoformat` reads what `date.isoformat` writes, and not the mark of a cycle. -/
structure ReadsDates (w : Worker) : Prop where
  inverse : ∀ d : Date, w.fromIsoformat d.isoformat = some d
  mark : w.fromIsoformat "<cycle>" = none

/-! ## One value -/

section
variable {rt : Runtime} {h : Heap} {w : Worker}

theorem isoformat_ne_nil (d : Date) : (d.isoformat != []) = true := by simp [Date.isoformat]

theorem datetime_ne_nil (t : DateTime) : (t.isoformat != []) = true := by
  simp [DateTime.isoformat]

theorem build_present (obj : Obj) (values : List Json) :
    present (obj.build rt h values) = true := by
  cases obj <;> rfl

theorem present_leaf {v : Value} {j : Json} (hv : ∀ id, v ≠ .ref id)
    (hj : jsonifyLeaf rt v = .ok j) : present j = isSet rt v := by
  cases v with
  | ref id => exact absurd rfl (hv id)
  | date d => cases hj; exact isoformat_ne_nil d
  | datetime t => cases hj; exact datetime_ne_nil t
  | decimal d => cases d <;> cases hj <;> rfl
  | _ => cases hj; rfl

/-- A converted value is present when the value is set. -/
theorem present_eq {fuel : Nat} {seen : List Nat} {v : Value} {j : Json} (he : Enough h fuel seen)
    (hj : jsonifyWith rt h fuel seen v = .ok j) : present j = isSet rt v := by
  rcases walk_cases he v with hv | ⟨id, rfl, hstop⟩ | ⟨id, obj, rest, rfl, hid, hobj, rfl, -⟩
  · rw [jsonifyWith_leaf hv] at hj
    exact present_leaf hv hj
  · rw [jsonifyWith_stopped hstop] at hj
    cases hj
    rfl
  · rw [jsonifyWith_ref hid hobj] at hj
    obtain ⟨values, -, hj⟩ := Py.bind_ok.mp hj
    cases hj
    exact build_present obj values

theorem coerce_leaf (hw : ReadsDates w) {v : Value} {j : Json} (hv : ∀ id, v ≠ .ref id)
    (hj : jsonifyLeaf rt v = .ok j) (ht : ∀ t, v ≠ .datetime t) :
    coerceIsoDate w j = isoDate rt w v := by
  cases v with
  | ref id => exact absurd rfl (hv id)
  | datetime t => exact absurd rfl (ht t)
  | date d => cases hj; exact hw.inverse d
  | decimal d => cases d <;> cases hj <;> rfl
  | _ => cases hj; rfl

/-- The date that a converted value is read as. -/
theorem coerceIsoDate_eq (hw : ReadsDates w) {fuel : Nat} {seen : List Nat} {v : Value} {j : Json}
    (he : Enough h fuel seen) (hj : jsonifyWith rt h fuel seen v = .ok j)
    (ht : ∀ t, v ≠ .datetime t) : coerceIsoDate w j = isoDate rt w v := by
  rcases walk_cases he v with hv | ⟨id, rfl, hstop⟩ | ⟨id, obj, rest, rfl, hid, hobj, rfl, -⟩
  · rw [jsonifyWith_leaf hv] at hj
    exact coerce_leaf hw hv hj ht
  · rw [jsonifyWith_stopped hstop] at hj
    cases hj
    exact hw.mark
  · rw [jsonifyWith_ref hid hobj] at hj
    obtain ⟨values, -, hj⟩ := Py.bind_ok.mp hj
    cases hj
    cases obj <;> rfl

/-! ## The mapping -/

/-- The converted mapping, name by name. -/
theorem jsonify_get {id : Nat} {items : List (Value × Value)} {metadata : JsonDict}
    (hobj : h[id]? = some (.dict items)) (hj : jsonify rt h (.ref id) = .ok (.obj metadata)) :
    ∃ fuel, Enough h fuel [id] ∧ ∀ name, Option.Rel
      (fun v j => jsonifyWith rt h fuel [id] v = .ok j) (given rt h items name)
        (metadata.get name) := by
  have hid : id ∉ ([] : List Nat) := by simp
  obtain ⟨fuel, hfuel, he⟩ := (Enough.start h).enter hid (lt_of_obj hobj)
  refine ⟨fuel, he, fun name => ?_⟩
  rw [jsonify, hfuel, jsonifyWith_ref hid hobj] at hj
  obtain ⟨values, hvalues, hj⟩ := Py.bind_ok.mp hj
  have hrel := @related_zip _ (keyStr rt h) items values (Py.mapM_forall₂ hvalues)
  cases hj
  rw [JsonDict.get, OrderedDict.lookupLast_items, OrderedDict.get_ofPairs]
  exact OrderedDict.lookupLast_related hrel

theorem find_filterMap_rel {α β : Type} {R : α → β → Prop} {f : Str → Option α}
    {g : Str → Option β} {p : α → Bool} {q : β → Bool}
    (hfg : ∀ name, Option.Rel R (f name) (g name))
    (hpq : ∀ a b, R a b → q b = p a) : ∀ names : List Str,
      Option.Rel R ((names.filterMap f).find? p) ((names.filterMap g).find? q)
  | [] => .none
  | name :: names => by
    have ih := find_filterMap_rel hfg hpq names
    have hname := hfg name
    rw [List.filterMap_cons, List.filterMap_cons]
    cases hf : f name with
    | none =>
      rw [hf] at hname
      cases hg : g name with
      | none => exact ih
      | some b => rw [hg] at hname; cases hname
    | some a =>
      rw [hf] at hname
      cases hg : g name with
      | none => rw [hg] at hname; cases hname
      | some b =>
        rw [hg] at hname
        cases hname with
        | some hr =>
          dsimp only
          rw [List.find?_cons, List.find?_cons, hpq a b hr]
          cases p a with
          | true => exact .some hr
          | false => exact ih

/-- What is read of the names, before and after the conversion. -/
theorem firstPresent_rel {fuel : Nat} {seen : List Nat} (he : Enough h fuel seen)
    {items : List (Value × Value)} {metadata : JsonDict}
    (hget : ∀ name, Option.Rel (fun v j => jsonifyWith rt h fuel seen v = .ok j)
      (given rt h items name) (metadata.get name)) :
    Option.Rel (fun v j => jsonifyWith rt h fuel seen v = .ok j) (firstSet rt h items)
      ((lastReviewedAliases.filterMap metadata.get).find? present) :=
  find_filterMap_rel hget (fun _ _ hj => present_eq he hj) lastReviewedAliases

/-- The date that is read of the mapping. -/
theorem reviewed_eq (hw : ReadsDates w) {id : Nat} {items : List (Value × Value)}
    {metadata : JsonDict} (hobj : h[id]? = some (.dict items))
    (hj : jsonify rt h (.ref id) = .ok (.obj metadata))
    (ht : ∀ t, firstSet rt h items ≠ some (.datetime t)) :
    coerceIsoDate w (firstPresent metadata lastReviewedAliases) =
      (firstSet rt h items).bind (isoDate rt w) := by
  obtain ⟨fuel, he, hget⟩ := jsonify_get hobj hj
  have hrel := firstPresent_rel he hget
  unfold firstPresent
  cases hfirst : firstSet rt h items with
  | none =>
    rw [hfirst] at hrel
    cases hfound : (lastReviewedAliases.filterMap metadata.get).find? present with
    | none => rfl
    | some j => rw [hfound] at hrel; cases hrel
  | some v =>
    rw [hfirst] at hrel ht
    cases hfound : (lastReviewedAliases.filterMap metadata.get).find? present with
    | none => rw [hfound] at hrel; cases hrel
    | some j =>
      rw [hfound] at hrel
      cases hrel with
      | some hr => exact coerceIsoDate_eq hw he hr fun t e => ht t (congrArg some e)

/-! ## The row -/

theorem documentRow_lastReviewed {source : Source} {file : FetchedFile} {parsed : ParsedDocument}
    {row : Document} (hrow : documentRow w source file parsed = .ok row) :
    row.lastReviewed = coerceIsoDate w (firstPresent parsed.metadata lastReviewedAliases) := by
  unfold documentRow at hrow
  obtain ⟨defaults, hdefaults, hrow⟩ := Py.bind_ok.mp hrow
  obtain ⟨_, -, hdefaults⟩ := Py.bind_ok.mp hdefaults
  cases hdefaults
  obtain ⟨_, -, hrow⟩ := Py.bind_ok.mp hrow
  obtain ⟨_, -, hrow⟩ := Py.bind_ok.mp hrow
  obtain ⟨_, -, hrow⟩ := Py.bind_ok.mp hrow
  obtain ⟨_, -, hrow⟩ := Py.bind_ok.mp hrow
  obtain ⟨_, -, hrow⟩ := Py.bind_ok.mp hrow
  obtain ⟨_, -, hrow⟩ := Py.bind_ok.mp hrow
  obtain ⟨_, -, hrow⟩ := Py.bind_ok.mp hrow
  obtain ⟨_, -, hrow⟩ := Py.bind_ok.mp hrow
  obtain ⟨_, -, hrow⟩ := Py.bind_ok.mp hrow
  cases hrow
  rfl

theorem parseDocument_metadata {text body : Str} {metadata : JsonDict} {maxTokens : Nat}
    {parsed : ParsedDocument} (hf : w.frontmatter text = .ok (body, metadata))
    (hparse : parseDocument w text maxTokens = .ok parsed) : parsed.metadata = metadata := by
  unfold parseDocument at hparse
  obtain ⟨-, -, hparse⟩ := Py.bind_ok.mp hparse
  obtain ⟨⟨body', metadata'⟩, hf', hparse⟩ := Py.bind_ok.mp hparse
  rw [hf] at hf'
  cases hf'
  dsimp only at hparse
  split at hparse
  · cases hparse
    rfl
  · obtain ⟨_, -, hparse⟩ := Py.bind_ok.mp hparse
    cases hparse
    rfl

/-- A document with this frontmatter mapping is parsed, and its row is written. -/
structure Written (rt : Runtime) (h : Heap) (items : List (Value × Value)) (w : Worker)
    (row : Document) : Prop where
  mapping : ∃ id metadata text body maxTokens parsed source file,
    h[id]? = some (.dict items) ∧ jsonify rt h (.ref id) = .ok (.obj metadata) ∧
    w.frontmatter text = .ok (body, metadata) ∧ parseDocument w text maxTokens = .ok parsed ∧
    documentRow w source file parsed = .ok row

/-- The date that is written. -/
theorem Written.lastReviewed (hw : ReadsDates w) {items : List (Value × Value)} {row : Document}
    (hrow : Written rt h items w row) (ht : ∀ t, firstSet rt h items ≠ some (.datetime t)) :
    row.lastReviewed = (firstSet rt h items).bind (isoDate rt w) := by
  obtain ⟨id, metadata, text, body, maxTokens, parsed, source, file, hobj, hj, hf, hparse, hrow⟩ :=
    hrow.mapping
  rw [documentRow_lastReviewed hrow, parseDocument_metadata hf hparse, reviewed_eq hw hobj hj ht]

/-- The names before it are not set. -/
theorem firstSet_of_split {items : List (Value × Value)} {earlier later : List Str} {name : Str}
    {v : Value} (hsplit : lastReviewedAliases = earlier ++ name :: later)
    (hearlier : ∀ n ∈ earlier, ∀ v, given rt h items n = some v → isSet rt v = false)
    (hname : given rt h items name = some v) (hset : isSet rt v = true) :
    firstSet rt h items = some v := by
  have hnone : (earlier.filterMap (given rt h items)).find? (isSet rt) = none := by
    refine List.find?_eq_none.mpr fun v hv => ?_
    obtain ⟨n, hn, hg⟩ := List.mem_filterMap.mp hv
    rw [hearlier n hn v hg]
    simp
  rw [firstSet, hsplit, List.filterMap_append, List.find?_append, hnone, Option.none_or,
    List.filterMap_cons_some hname, List.find?_cons_of_pos hset]

/-- **Review dates.** For every frontmatter mapping: a date under the first name that is set is what
is stored. Where that name holds no `datetime`, the column is null exactly when it holds no date and
no text that reads as one; and it is null when no name is set. -/
theorem review_date (hw : ReadsDates w) {items : List (Value × Value)} {row : Document}
    (hrow : Written rt h items w row) :
    (∀ earlier name later d, lastReviewedAliases = earlier ++ name :: later →
      (∀ n ∈ earlier, ∀ v, given rt h items n = some v → isSet rt v = false) →
      given rt h items name = some (.date d) → row.lastReviewed = some d) ∧
    (∀ v, firstSet rt h items = some v → (∀ t, v ≠ .datetime t) →
      (row.lastReviewed = none ↔ isoDate rt w v = none)) ∧
    (firstSet rt h items = none → row.lastReviewed = none) := by
  refine ⟨fun earlier name later d hsplit hearlier hname => ?_, fun v hfirst ht => ?_,
    fun hfirst => ?_⟩
  · have hfirst := firstSet_of_split hsplit hearlier hname rfl
    rw [hrow.lastReviewed hw (by simp [hfirst]), hfirst]
    rfl
  · have hne : ∀ t, firstSet rt h items ≠ some (.datetime t) := fun t e =>
      ht t (Option.some.inj (hfirst.symm.trans e))
    rw [hrow.lastReviewed hw hne, hfirst]
    rfl
  · rw [hrow.lastReviewed hw (by simp [hfirst]), hfirst]
    rfl

end

/-! ## Two frontmatters -/

/-- A worker whose frontmatter parser has converted this metadata. -/
def datingWorker (metadata : JsonDict) : Worker :=
  { asciiWorker with
    frontmatter := fun _ => .ok ("Text".toList, metadata)
    fromIsoformat := Date.fromIsoformat }

theorem datingWorker_reads (metadata : JsonDict) : ReadsDates (datingWorker metadata) :=
  ⟨Date.fromIsoformat_isoformat, (by decide : Date.fromIsoformat "<cycle>" = none)⟩

/-- 2024-01-15 -/
def midJanuary : Date := ⟨2024, 1, 15, by decide, by decide, by decide⟩

/-- The row of a page with this metadata is written. -/
theorem written_of_isOk {items : List (Value × Value)} {metadata : JsonDict} (text : Str)
    (hj : jsonify asciiRuntime [.dict items] (.ref 0) = .ok (.obj metadata))
    (hrow : (do
      let parsed ← parseDocument (datingWorker metadata) text 100
      documentRow (datingWorker metadata) { name := "wiki" } { path := "page.md", content := [] }
        parsed : Py Document).isOk = true) :
    ∃ row, Written asciiRuntime [.dict items] items (datingWorker metadata) row := by
  obtain ⟨row, hrow⟩ := Py.exists_of_isOk hrow
  obtain ⟨parsed, hparse, hrow⟩ := Py.bind_ok.mp hrow
  exact ⟨row, ⟨0, metadata, text, _, _, parsed, _, _, rfl, hj, rfl, hparse, hrow⟩⟩

/-- `verified: 2024-01-15` -/
def verifiedPage : List (Value × Value) := [(.str "verified", .date midJanuary)]

theorem review_date_verified : ∃ row, Written asciiRuntime [.dict verifiedPage] verifiedPage
    (datingWorker [("verified".toList, .str "2024-01-15")]) row ∧
    row.lastReviewed = some midJanuary := by
  obtain ⟨row, hrow⟩ := @written_of_isOk verifiedPage [("verified".toList, .str "2024-01-15")]
    "---\nverified: 2024-01-15\n---\nText" rfl (by decide +kernel)
  refine ⟨row, hrow, (review_date (datingWorker_reads _) hrow).1
    (lastReviewedAliases.take 5) "verified" [] midJanuary rfl ?_ rfl⟩
  decide +kernel

/-- `last_reviewed: soon` before `verified: 2024-01-15` -/
def vaguePage : List (Value × Value) :=
  [(.str "last_reviewed", .str "soon"), (.str "verified", .date midJanuary)]

/-- The first name that is set holds no date, and a later one does: the column is null. -/
theorem first_name_wins : ∃ row, Written asciiRuntime [.dict vaguePage] vaguePage
    (datingWorker [("last_reviewed".toList, .str "soon"), ("verified".toList, .str "2024-01-15")])
      row ∧
    given asciiRuntime [.dict vaguePage] vaguePage "verified" = some (.date midJanuary) ∧
    row.lastReviewed = none := by
  obtain ⟨row, hrow⟩ := @written_of_isOk vaguePage
    [("last_reviewed".toList, .str "soon"), ("verified".toList, .str "2024-01-15")]
    "---\nlast_reviewed: soon\nverified: 2024-01-15\n---\nText" rfl (by decide +kernel)
  refine ⟨row, hrow, rfl, ?_⟩
  have hfirst : firstSet asciiRuntime [.dict vaguePage] vaguePage = some (.str "soon".toList) := rfl
  rw [hrow.lastReviewed (datingWorker_reads _) (by simp [hfirst]), hfirst]
  decide +kernel

end KnowledgeKiln.L1.FileProcessing
