import KnowledgeKiln.Core.Run
import KnowledgeKiln.L1Ingest.Embedding

/-!
# The local embedding model (ingestion/embedding/local.py)

`_ensure_loaded` loads the model on the first call, on a thread of its own. Other calls run on the
event loop meanwhile; they wait for a lock and look again. A call that is cancelled inside the
factory leaves the lock, while its thread runs on for nobody. `aclose` takes no lock.

* `step_inv`: one step keeps the books of the factory, and every call has an encoder of it.
* `loaded_once`: any number of calls share one load, unless it fails, is abandoned or closed.
-/
namespace KnowledgeKiln.L1.LocalModel

open KnowledgeKiln.Core KnowledgeKiln.L1.Embedding

/-! ## The adapter -/

structure LocalProvider where
  model : Str
  dimensions : Nat
  dimensions_pos : 0 < dimensions

/-- Mirrors `_prefixes_for` and its table (local.py:68-119). -/
def prefixesFor (modelName : Str) : Str × Str :=
  if startsWith modelName "intfloat/e5-" || startsWith modelName "intfloat/multilingual-e5-" then
    ("passage: ", "query: ")
  else if startsWith modelName "nomic-ai/nomic-embed-text-v1" then
    ("search_document: ", "search_query: ")
  else ([], [])

inductive Request
  | embed (texts : List Str)
  | embedDocuments (texts : List Str)
  | embedQuery (text : Str)
  deriving DecidableEq

/-- What is given to the encoder (local.py:280-318). -/
def Request.texts (modelName : Str) : Request → List Str
  | .embed texts => texts
  | .embedDocuments texts => texts.map ((prefixesFor modelName).1 ++ ·)
  | .embedQuery text => [(prefixesFor modelName).2 ++ text]

/-- What `embed` makes of the encoder's vectors (local.py:272-278). -/
def LocalProvider.checked (p : LocalProvider) (vectors : List Vec) : Py (List Vec) :=
  match vectors.find? (·.length ≠ p.dimensions) with
  | some v =>
    .error (.valueError ("encoder returned ".toList ++ natStr v.length ++
      " dimensions, adapter is configured for ".toList ++ natStr p.dimensions))
  | none => .ok vectors

/-- What a call returns of the vectors; `embed_query` takes the first (local.py:297-306). -/
def Request.answer : Request → List Vec → Py (List Vec)
  | .embedQuery _, [] => .error (.external "IndexError: list index out of range")
  | .embedQuery _, v :: _ => .ok [v]
  | _, vectors => .ok vectors

/-- What becomes of the encoder's output. -/
def LocalProvider.returned (p : LocalProvider) (request : Request) (output : Py (List Vec)) :
    Py (List Vec) := do
  request.answer (← p.checked (← output))

/-! ## Calls on one event loop -/

/-- Where a call stands. An encoder is known by the number of the factory call that made it. -/
inductive Phase
  /-- It waits for `_load_lock`. -/
  | waiting
  /-- It holds the lock, and the factory runs. -/
  | loading (encoder : Nat)
  | encoding (encoder : Nat)
  | finished (encoder : Option Nat) (result : Py (List Vec))
  | cancelled

structure Call where
  request : Request
  phase : Phase

/-- `holder` has `_load_lock`. The factory was called `started` times; so many of these calls
raised or were abandoned, and so many times was `aclose` called. -/
structure World where
  encoder : Option Nat := none
  holder : Option Nat := none
  calls : List Call := []
  started : Nat := 0
  failed : Nat := 0
  abandoned : Nat := 0
  closed : Nat := 0

inductive Event
  | call (request : Request)
  | acquire (i : Nat)
  | loaded (i : Nat)
  | loadFails (i : Nat) (exc : PyExc)
  | encoded (i : Nat)
  | cancel (i : Nat)
  | aclose

/-- Call `i` goes to another phase. -/
def World.enter (w : World) (i : Nat) (request : Request) (phase : Phase) : World :=
  { w with calls := w.calls.set i { request, phase } }

section
variable (p : LocalProvider) (encode : Nat → List Str → Py (List Vec))

/-- One step; `encode` is `_encode_sync` with the given encoder. -/
def step (w : World) : Event → Option World
  | .call request =>
    some { w with calls := w.calls ++
      [{ request
         phase :=
          if request.texts p.model = [] then .finished none (.ok [])
          else match w.encoder with
            | some encoder => .encoding encoder
            | none => .waiting }] }
  | .acquire i =>
    match w.calls[i]?, w.holder with
    | some { request, phase := .waiting }, none =>
      match w.encoder with
      | some encoder => some (w.enter i request (.encoding encoder))
      | none =>
        some { w.enter i request (.loading w.started) with
          holder := some i, started := w.started + 1 }
    | _, _ => none
  | .loaded i =>
    match w.calls[i]? with
    | some { request, phase := .loading encoder } =>
      some { w.enter i request (.encoding encoder) with encoder := some encoder, holder := none }
    | _ => none
  | .loadFails i exc =>
    match w.calls[i]? with
    | some { request, phase := .loading _ } =>
      some { w.enter i request (.finished none (.error exc)) with
        holder := none, failed := w.failed + 1 }
    | _ => none
  | .encoded i =>
    match w.calls[i]? with
    | some { request, phase := .encoding encoder } =>
      some (w.enter i request (.finished (some encoder)
        (p.returned request (encode encoder (request.texts p.model)))))
    | _ => none
  | .cancel i =>
    match w.calls[i]? with
    | some { request, phase := .waiting } => some (w.enter i request .cancelled)
    | some { request, phase := .encoding _ } => some (w.enter i request .cancelled)
    | some { request, phase := .loading _ } =>
      some { w.enter i request .cancelled with holder := none, abandoned := w.abandoned + 1 }
    | _ => none
  | .aclose => some { w with encoder := none, closed := w.closed + 1 }

end

/-! ## The books of the factory -/

/-- The encoder that a call uses or has used. -/
def Phase.encoder : Phase → Option Nat
  | .encoding encoder => some encoder
  | .finished encoder _ => encoder
  | _ => none

structure Inv (p : LocalProvider) (encode : Nat → List Str → Py (List Vec)) (w : World) :
    Prop where
  balance : w.started ≤ w.failed + w.abandoned + w.closed + w.holder.toList.length +
    w.encoder.toList.length
  made : ∀ e ∈ w.encoder, e < w.started
  held : w.holder ≠ none → w.encoder = none
  loading : ∀ i x e, w.calls[i]? = some x → x.phase = .loading e →
    w.holder = some i ∧ w.encoder = none ∧ e < w.started
  used : ∀ x ∈ w.calls, ∀ e ∈ x.phase.encoder, e < w.started ∧ (w.closed = 0 → w.encoder = some e)
  result : ∀ x ∈ w.calls, ∀ e r, x.phase = .finished (some e) r →
    r = p.returned x.request (encode e (x.request.texts p.model))

theorem inv_init (p : LocalProvider) (encode : Nat → List Str → Py (List Vec)) :
    Inv p encode {} where
  balance := Nat.zero_le _
  made := nofun
  held := fun _ => rfl
  loading := nofun
  used := nofun
  result := nofun

section
variable {p : LocalProvider} {encode : Nat → List Str → Py (List Vec)} {w w' : World}
  {request : Request} {phase : Phase} {i : Nat}

/-- What the calls of a world say when one of them goes to a phase that does not load. -/
theorem enter_calls {P : Call → Prop} (h : ∀ x ∈ w.calls, P x) (hnew : P ⟨request, phase⟩) :
    ∀ x ∈ (w.enter i request phase).calls, P x := by
  intro x hx
  rcases List.mem_or_eq_of_mem_set hx with hx | rfl
  · exact h x hx
  · exact hnew

theorem enter_loading {x : Call} {j e : Nat} (h : (w.enter i request phase).calls[j]? = some x)
    (hx : x.phase = .loading e) (hphase : ∀ e, phase ≠ .loading e) :
    j ≠ i ∧ w.calls[j]? = some x := by
  simp only [World.enter, List.getElem?_set] at h
  split at h
  · split at h
    · cases h
      exact absurd hx (hphase e)
    · cases h
  · rename_i hne
    exact ⟨Ne.symm hne, h⟩

/-- A call waits, encodes or is done for good: the factory is not concerned. -/
theorem Inv.enter (hi : Inv p encode w) (hphase : ∀ e, phase ≠ .loading e)
    (hused : ∀ e ∈ phase.encoder, e < w.started ∧ (w.closed = 0 → w.encoder = some e))
    (hresult : ∀ e r, phase = .finished (some e) r →
      r = p.returned request (encode e (request.texts p.model))) :
    Inv p encode (w.enter i request phase) where
  balance := hi.balance
  made := hi.made
  held := hi.held
  loading j x e hx hload := hi.loading j x e (enter_loading hx hload hphase).2 hload
  used := enter_calls hi.used hused
  result := enter_calls hi.result hresult

/-- The call that loads leaves the lock; nothing was loaded before. -/
theorem Inv.leave (hi : Inv p encode w) {e : Nat}
    (hold : w.calls[i]? = some ⟨request, .loading e⟩) :
    w.holder = some i ∧ w.encoder = none ∧ e < w.started ∧
      (∀ j x e, w.calls[j]? = some x → x.phase = .loading e → j = i) ∧
      (w.closed = 0 → ∀ x ∈ w.calls, x.phase.encoder = none) := by
  obtain ⟨hholder, hnone, hlt⟩ := hi.loading i _ e hold rfl
  refine ⟨hholder, hnone, hlt, fun j x e' hx hload => ?_, fun hclosed x hx => ?_⟩
  · have hj := (hi.loading j x e' hx hload).1
    exact Option.some.inj (hj.symm.trans hholder)
  · refine Option.eq_none_iff_forall_ne_some.mpr fun e' he => ?_
    have hsome := (hi.used x hx e' he).2 hclosed
    rw [hnone] at hsome
    cases hsome

/-- **One step.** -/
theorem step_inv {event : Event} (hi : Inv p encode w) (h : step p encode w event = some w') :
    Inv p encode w' := by
  have hbalance := hi.balance
  cases event with
  | call request =>
    cases h
    have hnew : ∀ P : Call → Prop, (∀ x ∈ w.calls, P x) → ∀ phase, P ⟨request, phase⟩ →
        ∀ x ∈ w.calls ++ [⟨request, phase⟩], P x := by
      intro P h phase hphase x hx
      rcases List.mem_append.mp hx with hx | hx
      · exact h x hx
      · rw [List.mem_singleton.mp hx]
        exact hphase
    refine ⟨hi.balance, hi.made, hi.held, fun j x e hx hload => ?_, hnew _ hi.used _ ?_,
      hnew _ hi.result _ ?_⟩
    · rw [List.getElem?_append] at hx
      split at hx
      · exact hi.loading j x e hx hload
      · -- a call does not begin inside the factory
        rw [List.getElem?_singleton] at hx
        split at hx
        · cases hx
          dsimp only at hload
          split at hload
          · cases hload
          · split at hload <;> cases hload
        · cases hx
    · dsimp only
      split
      · nofun
      · split
        · rename_i e he
          rintro _ ⟨⟩
          exact ⟨hi.made e he, fun _ => he⟩
        · nofun
    · dsimp only
      split
      · nofun
      · split <;> nofun
  | acquire i =>
    simp only [step] at h
    split at h
    · rename_i request hx hholder
      split at h
      · rename_i e he
        cases h
        refine hi.enter nofun ?_ nofun
        rintro _ ⟨⟩
        exact ⟨hi.made e he, fun _ => he⟩
      · rename_i hnone
        cases h
        refine ⟨?_, ?_, fun _ => hnone, ?_, enter_calls (fun x hx e he => ?_) nofun,
          enter_calls hi.result nofun⟩
        · simp only [World.enter, hholder, hnone, Option.toList_none, List.length_nil,
            Option.toList_some, List.length_singleton] at hbalance ⊢
          omega
        · intro e he
          exact (hi.made e he).trans (Nat.lt_succ_self _)
        · intro j x e hj hload
          simp only [World.enter, List.getElem?_set] at hj
          split at hj
          · split at hj
            · cases hj
              cases hload
              rename_i he _
              exact ⟨congrArg some he, hnone, Nat.lt_succ_self _⟩
            · cases hj
          · have hj := hi.loading j x e hj hload
            rw [hholder] at hj
            cases hj.1
        · exact ⟨(hi.used x hx e he).1.trans (Nat.lt_succ_self _), (hi.used x hx e he).2⟩
    · cases h
  | loaded i =>
    simp only [step] at h
    split at h
    · rename_i request e hx
      cases h
      obtain ⟨hholder, hnone, hlt, hone, hunused⟩ := hi.leave hx
      refine ⟨?_, ?_, fun h => absurd rfl h, fun j x e' hj hload => ?_,
        enter_calls (fun x hx e' he => ?_) ?_, enter_calls hi.result nofun⟩
      · simp only [World.enter, hholder, hnone, Option.toList_none, List.length_nil,
          Option.toList_some, List.length_singleton] at hbalance ⊢
        omega
      · rintro _ ⟨⟩
        exact hlt
      · obtain ⟨hne, hj⟩ := enter_loading hj hload nofun
        exact absurd (hone j x e' hj hload) hne
      · refine ⟨(hi.used x hx e' he).1, fun hclosed => ?_⟩
        rw [hunused hclosed x hx] at he
        cases he
      · rintro _ ⟨⟩
        exact ⟨hlt, fun _ => rfl⟩
    · cases h
  | loadFails i exc =>
    simp only [step] at h
    split at h
    · rename_i request e hx
      cases h
      obtain ⟨hholder, hnone, -, hone, -⟩ := hi.leave hx
      refine ⟨?_, hi.made, fun h => absurd rfl h, fun j x e' hj hload => ?_,
        enter_calls hi.used nofun, enter_calls hi.result nofun⟩
      · simp only [World.enter, hholder, Option.toList_none, List.length_nil,
          Option.toList_some, List.length_singleton] at hbalance ⊢
        omega
      · obtain ⟨hne, hj⟩ := enter_loading hj hload nofun
        exact absurd (hone j x e' hj hload) hne
    · cases h
  | encoded i =>
    simp only [step] at h
    split at h
    · rename_i request e hx
      cases h
      refine hi.enter nofun ?_ ?_
      · rintro _ ⟨⟩
        exact hi.used _ (List.mem_of_getElem? hx) e rfl
      · rintro _ _ ⟨⟩
        rfl
    · cases h
  | cancel i =>
    simp only [step] at h
    split at h
    · cases h
      exact hi.enter nofun nofun nofun
    · cases h
      exact hi.enter nofun nofun nofun
    · rename_i request e hx
      cases h
      obtain ⟨hholder, hnone, -, hone, -⟩ := hi.leave hx
      refine ⟨?_, hi.made, fun h => absurd rfl h, fun j x e' hj hload => ?_,
        enter_calls hi.used nofun, enter_calls hi.result nofun⟩
      · simp only [World.enter, hholder, Option.toList_none, List.length_nil,
          Option.toList_some, List.length_singleton] at hbalance ⊢
        omega
      · obtain ⟨hne, hj⟩ := enter_loading hj hload nofun
        exact absurd (hone j x e' hj hload) hne
    · cases h
  | aclose =>
    cases h
    refine ⟨?_, nofun, fun _ => rfl, fun j x e hx hload => ?_, fun x hx e he => ?_, hi.result⟩
    · have : w.encoder.toList.length ≤ 1 := by cases w.encoder <;> simp
      simp only [Option.toList_none, List.length_nil]
      omega
    · obtain ⟨hholder, -, hlt⟩ := hi.loading j x e hx hload
      exact ⟨hholder, rfl, hlt⟩
    · exact ⟨(hi.used x hx e he).1, nofun⟩

end

/-- **One model.** However calls, failures, cancellations and `aclose` interleave: no two calls are
inside the factory, and it is called again only for a call of it that raised or was abandoned, or
for an `aclose`. As long as nothing is closed, all calls share one encoder; and what a call returns
is what an encoder of the factory made of its texts, with the prefix of their role, in vectors of
the declared length; of a query it is the first vector. -/
theorem loaded_once (p : LocalProvider) (encode : Nat → List Str → Py (List Vec))
    (events : List Event) (w : World) (h : exec (step p encode) {} events = some w) :
    (∀ (i j : Nat) x y e e', w.calls[i]? = some x → w.calls[j]? = some y → x.phase = .loading e →
      y.phase = .loading e' → i = j) ∧
    w.started ≤ w.failed + w.abandoned + w.closed + 1 ∧
    (w.closed = 0 → ∀ x ∈ w.calls, ∀ y ∈ w.calls, ∀ e ∈ x.phase.encoder, ∀ e' ∈ y.phase.encoder,
      e = e') ∧
    ∀ x ∈ w.calls, ∀ e vectors, x.phase = .finished (some e) (.ok vectors) → e < w.started ∧
      ∃ output, encode e (x.request.texts p.model) = .ok output ∧
        (∀ v ∈ output, v.length = p.dimensions) ∧ x.request.answer output = .ok vectors := by
  have hi : Inv p encode w := exec_invariant (fun _ _ _ hi _ hs => step_inv hi hs)
    (inv_init p encode) (guarded_of_forall fun _ _ _ => trivial) h
  refine ⟨fun i j x y e e' hx hy hxl hyl => ?_, ?_, fun hclosed x hx y hy e he e' he' => ?_,
    fun x hx e vectors hphase => ⟨?_, ?_⟩⟩
  · have hholder := (hi.loading i x e hx hxl).1
    rw [(hi.loading j y e' hy hyl).1] at hholder
    exact (Option.some.inj hholder).symm
  · -- the holder of the lock found no encoder
    have hbalance := hi.balance
    cases hholder : w.holder with
    | none =>
      have : w.encoder.toList.length ≤ 1 := by cases w.encoder <;> simp
      simp only [hholder, Option.toList_none, List.length_nil] at hbalance
      omega
    | some i =>
      have hnone := hi.held (hholder ▸ nofun)
      simp only [hholder, hnone, Option.toList_none, Option.toList_some, List.length_nil,
        List.length_singleton] at hbalance
      omega
  · have hsome := (hi.used x hx e he).2 hclosed
    rw [(hi.used y hy e' he').2 hclosed] at hsome
    exact (Option.some.inj hsome).symm
  · exact (hi.used x hx e (by rw [hphase]; rfl)).1
  · have hr := (hi.result x hx e _ hphase).symm
    obtain ⟨output, houtput, hr⟩ := Py.bind_ok.mp hr
    obtain ⟨checked, hchecked, hr⟩ := Py.bind_ok.mp hr
    unfold LocalProvider.checked at hchecked
    split at hchecked
    · cases hchecked
    · rename_i hnone
      cases hchecked
      exact ⟨output, houtput, fun v hv => by simpa using List.find?_eq_none.mp hnone v hv, hr⟩

/-! ## Two callers -/

def smallModel : LocalProvider where
  model := "intfloat/e5-small-v2"
  dimensions := 1
  dimensions_pos := Nat.one_pos

/-- Both find no model; the second waits, looks again, and loads nothing. -/
def twoCallers : List Event :=
  [.call (.embedQuery "q"), .call (.embedDocuments ["d"]), .acquire 0, .loaded 0, .acquire 1,
    .encoded 1, .encoded 0]

/-- An encoder that counts characters. -/
def lengthEncoder (_ : Nat) (texts : List Str) : Py (List Vec) :=
  .ok (texts.map fun t => [some (t.length : ℚ)])

theorem loaded_once_twoCallers : ∃ w,
    exec (step smallModel lengthEncoder) {} twoCallers = some w ∧ w.started = 1 ∧
      (∃ x ∈ w.calls, x.phase.encoder = some 0 ∧ x.request = .embedDocuments ["d".toList]) ∧
      ∀ x ∈ w.calls, ∀ e vectors, x.phase = .finished (some e) (.ok vectors) → e < w.started ∧
        ∃ output, lengthEncoder e (x.request.texts smallModel.model) = .ok output ∧
          (∀ v ∈ output, v.length = 1) ∧ x.request.answer output = .ok vectors := by
  have hrun : (exec (step smallModel lengthEncoder) {} twoCallers).map (fun w =>
      (w.started, w.calls.map fun x => (x.phase.encoder, x.request))) =
      some (1, [(some 0, .embedQuery "q".toList), (some 0, .embedDocuments ["d".toList])]) := by
    decide +kernel
  obtain ⟨w, hw, he⟩ := Option.map_eq_some_iff.mp hrun
  obtain ⟨hstarted, hcalls⟩ := Prod.ext_iff.mp he
  have hmem : (some 0, Request.embedDocuments ["d".toList]) ∈
      w.calls.map fun x => (x.phase.encoder, x.request) := by
    dsimp only at hcalls
    rw [hcalls]
    exact List.mem_cons_of_mem _ List.mem_cons_self
  obtain ⟨x, hx, he⟩ := List.mem_map.mp hmem
  obtain ⟨hencoder, hrequest⟩ := Prod.ext_iff.mp he
  have h := loaded_once smallModel lengthEncoder twoCallers w hw
  exact ⟨w, hw, hstarted, ⟨x, hx, hencoder, hrequest⟩, h.2.2.2⟩

end KnowledgeKiln.L1.LocalModel
