import KnowledgeKiln.Core.Marker
import KnowledgeKiln.L3Agent.ContextPack

/-!
# The markers of a document

With `embed_warnings_in_text` the warnings about a document stand behind the text of its chunks, a
line each, in the order of their types and messages.

* `warningsAbout`: what the emitters say of the candidates of one document.
* `opener_notMem_about`: no line holds a bracket that it does not begin with.
* `inlined_markers`: the lines that a pack gets are those of `warningsAbout`.
-/
namespace KnowledgeKiln.L3.Markers

open KnowledgeKiln.Core KnowledgeKiln.L2 KnowledgeKiln.L2.Ranking KnowledgeKiln.L2.Engine
  KnowledgeKiln.L3.Serializers KnowledgeKiln.L3.ContextPack

/-- The warnings that name the document. -/
def named (id : Uuid) (ws : List Warning) : List Warning := ws.filter (·.sourceId = some id)

/-- The warnings about a document, in the order of their types. Only the isolated match is one of
the whole list of candidates. -/
def warningsAbout (env : Env) (k : Call) (rows : List SearchRow) (id : Uuid) : List Warning :=
  let mine := (k.cands env rows).filter (·.documentId = id)
  let gated := (k.gated env rows).filter (·.documentId = id)
  deprecatedWarnings mine ++
    (named id (isolatedMatchWarning env (k.cands env rows) k.gates.isolatedMatchDropThreshold
        k.gates.weakEvidenceThreshold) ++
      (promptInjectionWarnings gated none none ++ (sensitiveContentWarnings gated none none ++
        (staleWarnings mine k.sur.warnDay k.gates.staleAfterDays).toOption.getD [])))

/-! ## The messages -/

/-- What opens a special token, and what opens a line. -/
def openers : List Char := ['<', '[']

section
variable {x : Char}

theorem opener_foreign (hx : x ∈ openers) : Foreign x := by
  rcases List.mem_pair.mp hx with rfl | rfl
  · exact foreign_lt
  · exact foreign_bracket

theorem opener_notMem {s : Str} (hlt : '<' ∉ s) (hbracket : '[' ∉ s) (hx : x ∈ openers) :
    x ∉ s := by
  rcases List.mem_pair.mp hx with rfl | rfl
  · exact hlt
  · exact hbracket

theorem staleWarning_message {threshold : Nat} {days : Days} {c : RankedChunk} {w : Warning}
    (hx : x ∈ openers) (h : staleWarning threshold days c = some w) : x ∉ w.message := by
  have hnumber := opener_foreign hx
  unfold staleWarning at h
  split at h
  · cases h
    simp only [downgradeToFlat_message, WarningVariant.message, List.mem_append, not_or]
    refine ⟨⟨⟨⟨?_, ?_⟩, ?_⟩, hnumber.notMem_natStr _⟩, ?_⟩
    case refine_2 =>
      cases c.lastReviewed with
      | none => exact opener_notMem (by decide) (by decide) hx
      | some d => exact hnumber.notMem_isoformat d
    all_goals exact opener_notMem (by decide) (by decide) hx
  · cases h

theorem deprecatedWarning_message {c : RankedChunk} {w : Warning} (hx : x ∈ openers)
    (h : deprecatedWarning c = some w) : x ∉ w.message := by
  unfold deprecatedWarning at h
  split at h
  · rename_i hdead
    cases h
    have hstatus : x ∉ c.status :=
      opener_notMem ((by decide : ∀ s ∈ deadStatuses, '<' ∉ s) _ hdead)
        ((by decide : ∀ s ∈ deadStatuses, '[' ∉ s) _ hdead) hx
    simp only [downgradeToFlat_message, WarningVariant.message, List.mem_append, not_or]
    exact ⟨⟨opener_notMem (by decide) (by decide) hx, hstatus⟩,
      opener_notMem (by decide) (by decide) hx⟩
  · cases h

theorem isolatedMatchWarning_message {env : Env} {chunks : List RankedChunk}
    {drop threshold : Option ℚ} {w : Warning} (hx : x ∈ openers)
    (h : w ∈ isolatedMatchWarning env chunks drop threshold) : x ∉ w.message := by
  have hnumber := opener_foreign hx
  unfold isolatedMatchWarning at h
  split at h
  · cases h
  · dsimp only at h
    split at h
    · split at h
      · cases h
      · split at h
        · cases h
        · cases List.mem_singleton.mp h
          simp only [downgradeToFlat_message, WarningVariant.message, List.mem_append, not_or]
          refine ⟨⟨⟨⟨⟨⟨⟨⟨⟨?_, hnumber.notMem_fixed2 _⟩, ?_⟩, hnumber.notMem_fixed2 _⟩, ?_⟩,
            hnumber.notMem_fixed2 _⟩, ?_⟩, hnumber.notMem_fixed2 _⟩, ?_⟩, ?_⟩
          all_goals exact opener_notMem (by decide) (by decide) hx
    · cases h

theorem promptInjectionWarnings_message {chunks : List RankedChunk} {floor : Option ℚ}
    {rank : Option Nat} {w : Warning} (hx : x ∈ openers)
    (h : w ∈ promptInjectionWarnings chunks floor rank) : x ∉ w.message := by
  obtain ⟨c, -, rfl⟩ := List.mem_map.mp h
  simp only [downgradeToFlat_message, WarningVariant.message]
  exact opener_notMem (by decide) (by decide) hx

theorem sensitiveContentWarnings_message {chunks : List RankedChunk} {floor : Option ℚ}
    {rank : Option Nat} {w : Warning} (hx : x ∈ openers)
    (h : w ∈ sensitiveContentWarnings chunks floor rank) : x ∉ w.message := by
  obtain ⟨c, -, rfl⟩ := List.mem_map.mp h
  simp only [downgradeToFlat_message, WarningVariant.message]
  exact opener_notMem (by decide) (by decide) hx

theorem staleWarnings_message {chunks : List RankedChunk} {today : Date} {n : Option Days}
    {ws : List Warning} {w : Warning} (hx : x ∈ openers) (h : staleWarnings chunks today n = .ok ws)
    (hw : w ∈ ws) : x ∉ w.message := by
  unfold staleWarnings at h
  split at h
  · cases h
    cases hw
  · obtain ⟨threshold, -, h⟩ := Py.bind_ok.mp h
    cases h
    obtain ⟨c, -, he⟩ := mem_onePerDocument hw
    exact staleWarning_message hx he

/-- No line about a document holds an opener behind its own. -/
theorem opener_notMem_about {env : Env} {k : Call} {rows : List SearchRow} {id : Uuid} {w : Warning}
    (hx : x ∈ openers) (h : w ∈ warningsAbout env k rows id) : x ∉ w.message := by
  unfold warningsAbout at h
  dsimp only at h
  simp only [List.mem_append] at h
  rcases h with h | h | h | h | h
  · obtain ⟨c, -, he⟩ := mem_onePerDocument h
    exact deprecatedWarning_message hx he
  · exact isolatedMatchWarning_message hx (List.mem_of_mem_filter h)
  · exact promptInjectionWarnings_message hx h
  · exact sensitiveContentWarnings_message hx h
  · cases hs : staleWarnings ((k.cands env rows).filter (·.documentId = id)) k.sur.warnDay
        k.gates.staleAfterDays with
    | error e =>
      rw [hs] at h
      cases h
    | ok ws =>
      rw [hs] at h
      exact staleWarnings_message hx hs h

end

/-! ## The order of the lines -/

/-- The order of `inlinedWarnings`, on types and messages. -/
def KeyLe (a b : Str × Str) : Prop := a.1 < b.1 ∨ (a.1 = b.1 ∧ a.2 ≤ b.2)

instance : Std.Total KeyLe := ⟨fun a b => by unfold KeyLe; grind⟩

instance : IsTrans (Str × Str) KeyLe := ⟨fun a b c => by unfold KeyLe; grind⟩

instance : Std.Antisymm KeyLe := ⟨fun a b h h' => by unfold KeyLe at h h'; ext1 <;> grind⟩

def markerKey (w : Warning) : Str × Str := (w.type.value, w.message)

def MarkerLe (a b : Warning) : Prop := KeyLe (markerKey a) (markerKey b)

instance : DecidableRel MarkerLe := fun a b =>
  inferInstanceAs <| Decidable <|
    a.type.value < b.type.value ∨ (a.type.value = b.type.value ∧ a.message ≤ b.message)

instance : Std.Total MarkerLe := ⟨fun a b => Std.Total.total (r := KeyLe) (markerKey a) (markerKey b)⟩

instance : IsTrans Warning MarkerLe := ⟨fun _ _ _ h h' => IsTrans.trans (r := KeyLe) _ _ _ h h'⟩

/-- A line is made of the key. -/
theorem map_marker_congr {l l' : List Warning} (h : l.map markerKey = l'.map markerKey) :
    l.map marker = l'.map marker := by
  have hmap : ∀ l : List Warning, l.map marker =
      (l.map markerKey).map fun k => "[KILN-WARN: ".toList ++ k.1 ++ " — " ++ k.2 ++ "]" := by
    intro l
    rw [List.map_map]
    rfl
  rw [hmap, hmap, h]

/-- The lines behind a text depend on the types and messages of the warnings. -/
theorem withMarkers_congr {ws ws' : List Warning} (h : ws.map marker = ws'.map marker)
    (text : Str) : withMarkers ws text = withMarkers ws' text := by
  have hlen : ws.length = ws'.length := by simpa using congrArg List.length h
  have hnil : ws = [] ↔ ws' = [] := by
    rw [← List.length_eq_zero_iff, hlen, List.length_eq_zero_iff]
  simp only [withMarkers, h, hnil]

/-- What is sorted is the one ordered list of its lines. -/
theorem sorted_markers {l l' : List Warning} (hperm : l.Perm l') (hl : l'.Pairwise MarkerLe) :
    (l.insertionSort MarkerLe).map marker = l'.map marker := by
  refine map_marker_congr (List.Perm.eq_of_pairwise' (r := KeyLe) ?_ ?_ ?_)
  · exact List.pairwise_map.mpr (List.pairwise_insertionSort MarkerLe l)
  · exact List.pairwise_map.mpr hl
  · exact ((List.perm_insertionSort MarkerLe l).trans hperm).map markerKey

theorem pairwise_uniform {t : WarningType} {l : List Warning} (hu : Uniform t l)
    (hm : ∀ a ∈ l, ∀ b ∈ l, a.message = b.message) : l.Pairwise MarkerLe := by
  refine List.pairwise_of_forall_mem_list fun a ha b hb => ?_
  have htype : a.type = b.type := (hu a ha).1.trans (hu b hb).1.symm
  refine .inr ⟨congrArg WarningType.value htype, ?_⟩
  show a.message ≤ b.message
  rw [hm a ha b hb]

theorem pairwise_short {l : List Warning} (h : l.length ≤ 1) : l.Pairwise MarkerLe := by
  rcases l with _ | ⟨a, _ | ⟨b, l⟩⟩
  · exact .nil
  · exact List.pairwise_singleton _ a
  · simp at h

theorem pairwise_append {l l' : List Warning} (hl : l.Pairwise MarkerLe)
    (hl' : l'.Pairwise MarkerLe) (h : ∀ a ∈ l, ∀ b ∈ l', a.type.value < b.type.value) :
    (l ++ l').Pairwise MarkerLe :=
  List.pairwise_append.mpr ⟨hl, hl', fun a ha b hb => .inl (h a ha b hb)⟩

/-! ## The emitters, document by document -/

theorem onePerDocument_seen {emit : RankedChunk → Option Warning} {id : Uuid} {seen : List Uuid}
    (h : id ∈ seen) {cs : List RankedChunk} (hcs : ∀ c ∈ cs, c.documentId = id) :
    onePerDocument emit seen cs = [] := by
  induction cs with
  | nil => rfl
  | cons c cs ih =>
    rw [onePerDocument, if_pos (hcs c List.mem_cons_self ▸ h)]
    exact ih fun c hc => hcs c (List.mem_cons_of_mem _ hc)

theorem onePerDocument_short {emit : RankedChunk → Option Warning} {id : Uuid}
    {cs : List RankedChunk} (hcs : ∀ c ∈ cs, c.documentId = id) :
    (onePerDocument emit [] cs).length ≤ 1 := by
  induction cs with
  | nil => exact Nat.zero_le 1
  | cons c cs ih =>
    have hrest : ∀ c ∈ cs, c.documentId = id := fun c hc => hcs c (List.mem_cons_of_mem _ hc)
    rw [onePerDocument, if_neg List.not_mem_nil]
    cases emit c with
    | none => exact ih hrest
    | some w =>
      dsimp only
      rw [hcs c List.mem_cons_self, onePerDocument_seen List.mem_cons_self hrest]
      exact Nat.le_refl 1

/-- The warnings that name a document are those of its own chunks. -/
theorem named_onePerDocument {emit : RankedChunk → Option Warning}
    (hemit : ∀ c w, emit c = some w → w.sourceId = some c.documentId) {id : Uuid}
    {cs : List RankedChunk} {seen : List Uuid} :
    named id (onePerDocument emit seen cs) =
      if id ∈ seen then [] else onePerDocument emit [] (cs.filter (·.documentId = id)) := by
  induction cs generalizing seen with
  | nil => simp [onePerDocument, named]
  | cons c cs ih =>
    have hmine : ∀ c ∈ cs.filter (·.documentId = id), c.documentId = id := fun c hc => by
      simpa using (List.mem_filter.mp hc).2
    by_cases hc : c.documentId = id
    · subst hc
      rw [List.filter_cons_of_pos (by simp), onePerDocument, onePerDocument,
        if_neg List.not_mem_nil]
      by_cases hseen : c.documentId ∈ seen
      · rw [if_pos hseen, if_pos hseen, ih, if_pos hseen]
      · rw [if_neg hseen, if_neg hseen]
        cases hw : emit c with
        | none =>
          dsimp only
          rw [ih, if_neg hseen]
        | some w =>
          dsimp only
          rw [onePerDocument_seen List.mem_cons_self hmine, named,
            List.filter_cons_of_pos (by simpa using hemit c w hw)]
          have hrest := @ih (c.documentId :: seen)
          rw [if_pos List.mem_cons_self] at hrest
          exact congrArg (w :: ·) hrest
    · rw [List.filter_cons_of_neg (by simpa using hc), onePerDocument]
      split
      · exact ih
      · cases hw : emit c with
        | none => exact ih
        | some w =>
          have hskip : ¬ w.sourceId = some id := by
            rw [hemit c w hw]
            simpa using hc
          dsimp only
          rw [named, List.filter_cons_of_neg (by simpa using hskip)]
          refine ih.trans ?_
          simp [Ne.symm hc]

section
variable {chunks : List RankedChunk} {id : Uuid}

theorem named_deprecated : named id (deprecatedWarnings chunks) =
    deprecatedWarnings (chunks.filter (·.documentId = id)) :=
  (named_onePerDocument deprecatedWarning_names).trans (if_neg List.not_mem_nil)

theorem named_stale {today : Date} {n : Option Days} {ws : List Warning}
    (h : staleWarnings chunks today n = .ok ws) : named id ws =
      (staleWarnings (chunks.filter (·.documentId = id)) today n).toOption.getD [] := by
  unfold staleWarnings at h ⊢
  cases n with
  | none =>
    cases h
    rfl
  | some n =>
    obtain ⟨threshold, ht, h⟩ := Py.bind_ok.mp h
    cases h
    dsimp only
    rw [ht]
    exact (named_onePerDocument (staleWarning_names threshold n)).trans (if_neg List.not_mem_nil)

theorem named_map {p : RankedChunk → Bool} {emit : RankedChunk → Warning}
    (hemit : ∀ c, (emit c).sourceId = some c.documentId) :
    named id ((chunks.filter p).map emit) =
      ((chunks.filter (·.documentId = id)).filter p).map emit := by
  rw [named, List.filter_map, List.filter_filter, List.filter_filter]
  refine congrArg _ (List.filter_congr fun c _ => ?_)
  simp [hemit, Bool.and_comm]

theorem named_of_none {ws : List Warning} (h : ∀ w ∈ ws, w.sourceId = none) : named id ws = [] :=
  List.filter_eq_nil_iff.mpr fun w hw => by simp [h w hw]

end

theorem isolatedMatch_short {env : Env} {chunks : List RankedChunk} {drop threshold : Option ℚ} :
    (isolatedMatchWarning env chunks drop threshold).length ≤ 1 := by
  unfold isolatedMatchWarning
  split
  · exact Nat.zero_le 1
  · dsimp only
    split
    · split
      · exact Nat.zero_le 1
      · split
        · exact Nat.zero_le 1
        · exact Nat.le_refl 1
    · exact Nat.zero_le 1

theorem stale_ordered {chunks : List RankedChunk} {today : Date} {n : Option Days} {id : Uuid}
    (hmine : ∀ c ∈ chunks, c.documentId = id) :
    Uniform .staleSource ((staleWarnings chunks today n).toOption.getD []) ∧
      ((staleWarnings chunks today n).toOption.getD []).length ≤ 1 := by
  cases h : staleWarnings chunks today n with
  | error e => exact ⟨Uniform.nil _, Nat.zero_le 1⟩
  | ok ws =>
    refine ⟨staleWarnings_uniform h, ?_⟩
    unfold staleWarnings at h
    cases n with
    | none =>
      cases h
      exact Nat.zero_le 1
    | some n =>
      obtain ⟨threshold, -, h⟩ := Py.bind_ok.mp h
      cases h
      exact onePerDocument_short hmine

/-! ## The warnings of a pack -/

section
variable {env : Env} {k : Call} {rows : List SearchRow} {removed : List Str} {ws : List Warning}
  {id : Uuid}

/-- The lines of a document are in order. -/
theorem warningsAbout_pairwise : (warningsAbout env k rows id).Pairwise MarkerLe := by
  have hmine : ∀ c ∈ (k.cands env rows).filter (·.documentId = id), c.documentId = id :=
    fun c hc => by simpa using (List.mem_filter.mp hc).2
  obtain ⟨hstale, hshort⟩ := @stale_ordered _ k.sur.warnDay k.gates.staleAfterDays _ hmine
  have hisolated : Uniform .isolatedMatch (named id (isolatedMatchWarning env (k.cands env rows)
      k.gates.isolatedMatchDropThreshold k.gates.weakEvidenceThreshold)) :=
    fun w hw => isolatedMatchWarning_uniform w (List.mem_of_mem_filter hw)
  -- no type stands before one in front of it
  have hvalues : ∀ {t t' : WarningType} {l l' : List Warning}, Uniform t l → Uniform t' l' →
      t.value < t'.value → ∀ a ∈ l, ∀ b ∈ l', a.type.value < b.type.value := by
    intro t t' l l' hl hl' ht a ha b hb
    rw [(hl a ha).1, (hl' b hb).1]
    exact ht
  have happend : ∀ {l l₁ l₂ : List Warning}, (∀ a ∈ l, ∀ b ∈ l₁, a.type.value < b.type.value) →
      (∀ a ∈ l, ∀ b ∈ l₂, a.type.value < b.type.value) →
      ∀ a ∈ l, ∀ b ∈ l₁ ++ l₂, a.type.value < b.type.value := by
    intro l l₁ l₂ h₁ h₂ a ha b hb
    exact (List.mem_append.mp hb).elim (h₁ a ha b) (h₂ a ha b)
  have hsame : ∀ {l : List RankedChunk} {emit : RankedChunk → Warning} {message : Str},
      (∀ c, (emit c).message = message) →
      ∀ a ∈ l.map emit, ∀ b ∈ l.map emit, a.message = b.message := by
    intro l emit message hemit a ha b hb
    obtain ⟨c, -, rfl⟩ := List.mem_map.mp ha
    obtain ⟨c', -, rfl⟩ := List.mem_map.mp hb
    exact (hemit c).trans (hemit c').symm
  refine pairwise_append (pairwise_short (onePerDocument_short hmine)) (pairwise_append
    (pairwise_short (List.length_filter_le _ _ |>.trans isolatedMatch_short)) (pairwise_append
    (pairwise_uniform promptInjectionWarnings_uniform (hsame fun _ => rfl)) (pairwise_append
    (pairwise_uniform sensitiveContentWarnings_uniform (hsame fun _ => rfl))
    (pairwise_short hshort) ?_) ?_) ?_) ?_
  · exact hvalues sensitiveContentWarnings_uniform hstale (by decide)
  · exact happend (hvalues promptInjectionWarnings_uniform sensitiveContentWarnings_uniform
      (by decide)) (hvalues promptInjectionWarnings_uniform hstale (by decide))
  · exact happend (hvalues hisolated promptInjectionWarnings_uniform (by decide)) (happend
      (hvalues hisolated sensitiveContentWarnings_uniform (by decide))
      (hvalues hisolated hstale (by decide)))
  · exact happend (hvalues (deprecatedWarnings_uniform _) hisolated (by decide)) (happend
      (hvalues (deprecatedWarnings_uniform _) promptInjectionWarnings_uniform (by decide)) (happend
      (hvalues (deprecatedWarnings_uniform _) sensitiveContentWarnings_uniform (by decide))
      (hvalues (deprecatedWarnings_uniform _) hstale (by decide))))

/-- No severity is written down by an emitter, so none keeps a warning out of the text. -/
theorem inlined_eq (h : ∀ w ∈ ws, w.Defaulted) :
    inlinedWarnings ws id = (named id ws).insertionSort MarkerLe := by
  have hfilter : (ws.filter fun w => inlineMarkerEligible w.severity && w.sourceId == some id) =
      named id ws := by
    refine List.filter_congr fun w hw => ?_
    rw [(h w hw).1]
    simp [inlineMarkerEligible, beq_eq_decide]
  unfold inlinedWarnings
  rw [hfilter]
  rfl

/-- The first part moves behind the others, the last one behind the second. -/
theorem perm_parts {α : Type*} (a b c d e : List α) :
    (a ++ b ++ c ++ d ++ e).Perm (b ++ (e ++ (c ++ (d ++ a)))) := by
  have hlast : (c ++ d ++ e).Perm (e ++ (c ++ d)) := List.perm_append_comm
  have hfirst : (a ++ (b ++ (c ++ d ++ e))).Perm (b ++ (c ++ d ++ e) ++ a) := List.perm_append_comm
  have h := hfirst.trans ((hlast.append_left b).append_right a)
  simpa only [List.append_assoc] using h

/-- The warnings of the pack that name the document. -/
theorem named_collected {ws₁ ws₂ : List Warning}
    (h₁ : collectWarnings env (k.cands env rows) k.sur.warnDay k.gates = .ok ws₁)
    (h₂ : conflictWarnings env (k.conflicts env rows) = .ok ws₂) :
    (named id (ws₁ ++ ws₂ ++ normalizationWarnings env removed)).Perm
      (warningsAbout env k rows id) := by
  obtain ⟨stale, hstale, h₁⟩ := Py.bind_ok.mp h₁
  cases h₁
  have hweak : named id (weakEvidenceWarning env (k.cands env rows) k.gates.weakEvidenceThreshold) =
      [] := named_of_none fun w => weakEvidence_names
  have hconflicts : named id ws₂ = [] :=
    named_of_none fun w => conflictWarnings_names h₂
  have hnormalized : named id (normalizationWarnings env removed) = [] :=
    named_of_none fun w => normalizationWarnings_names
  have happend : ∀ l l' : List Warning, named id (l ++ l') = named id l ++ named id l' :=
    fun _ _ => List.filter_append ..
  have hinjection : named id (promptInjectionWarnings (k.cands env rows) k.gates.relevanceFloor
      k.gates.maxWarningRank) =
      promptInjectionWarnings ((k.gated env rows).filter (·.documentId = id)) none none :=
    named_map fun _ => rfl
  have hsensitive : named id (sensitiveContentWarnings (k.cands env rows) k.gates.relevanceFloor
      k.gates.maxWarningRank) =
      sensitiveContentWarnings ((k.gated env rows).filter (·.documentId = id)) none none :=
    named_map fun _ => rfl
  rw [happend, happend, happend, happend, happend, happend, happend, hweak, hconflicts,
    hnormalized, hinjection, hsensitive, named_deprecated, named_stale hstale]
  simp only [List.append_nil]
  exact perm_parts _ _ _ _ _

/-- **The lines of a document** in a pack are made of its candidates. -/
theorem inlined_markers {ws₁ ws₂ : List Warning}
    (h₁ : collectWarnings env (k.cands env rows) k.sur.warnDay k.gates = .ok ws₁)
    (h₂ : conflictWarnings env (k.conflicts env rows) = .ok ws₂) :
    (inlinedWarnings (ws₁ ++ ws₂ ++ normalizationWarnings env removed) id).map marker =
      (warningsAbout env k rows id).map marker := by
  have hdefaulted : ∀ w ∈ ws₁ ++ ws₂ ++ normalizationWarnings env removed, w.Defaulted := by
    intro w hw
    rw [List.append_assoc, List.mem_append, List.mem_append] at hw
    rcases hw with hw | hw | hw
    · exact collectWarnings_defaulted h₁ hw
    · exact (conflictWarnings_uniform h₂ w hw).2
    · exact (normalizationWarnings_uniform w hw).2
  rw [inlined_eq hdefaulted]
  exact sorted_markers (named_collected h₁ h₂) warningsAbout_pairwise

end

end KnowledgeKiln.L3.Markers
