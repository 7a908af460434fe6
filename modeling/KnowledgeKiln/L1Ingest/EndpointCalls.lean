import KnowledgeKiln.Core.Format
import KnowledgeKiln.L1Ingest.Retries

/-!
# The calls of the OpenAI-compatible adapters

`generate` and `embed` over `requestWithRetry`, and `_parse_completion`. The endpoint is a function
of the payload and of the number of the attempt.

* `parseCompletion_returns_iff`: which answers are taken for a completion.
* `calls_return_iff`: when the two calls return anything.
-/
namespace KnowledgeKiln.L1.Endpoint

open KnowledgeKiln.Core KnowledgeKiln.L1.Embedding

/-- `value.get(key)`; what is not a dictionary has no such method. -/
def getMember (value : Json) (key : Str) : Py Json :=
  match value with
  | .obj members => pure ((JsonDict.get members key).getD .null)
  | _ => throw .attributeError

/-- `value or other` -/
def orElse (value other : Json) : Json := if value.truthy then value else other

/-- `choices[0]`, of a value that is true -/
def firstOf : Json → Py Json
  | .arr (choice :: _) => pure choice
  | .str (c :: _) => pure (.str [c])
  | .obj _ => throw (.keyError "0".toList)
  | _ => throw (.external "TypeError: object is not subscriptable".toList)

/-- `GenerationResult`, whose fields hold what the endpoint sent. -/
structure GenerationResult where
  text : Json
  finishReason : Json
  model : Json
  promptTokens : Json
  completionTokens : Json
  totalTokens : Json

/-- Mirrors `_parse_completion` (generation/openai_compatible.py:184-217). -/
def parseCompletion (model : Str) (data : Json) : Py GenerationResult := do
  let choices := orElse (← getMember data "choices".toList) (.arr [])
  if !choices.truthy then
    throw <| .runtimeError
      "generator returned no choices; response body shape was unexpected".toList
  let choice ← firstOf choices
  let message := orElse (← getMember choice "message".toList) (.obj [])
  let text := orElse (← getMember message "content".toList) (.str [])
  let finishReason := orElse (← getMember choice "finish_reason".toList) (.str "stop".toList)
  let usage := orElse (← getMember data "usage".toList) (.obj [])
  let promptTokens ← getMember usage "prompt_tokens".toList
  let completionTokens ← getMember usage "completion_tokens".toList
  let totalTokens ← getMember usage "total_tokens".toList
  let actualModel := orElse (← getMember data "model".toList) (.str model)
  pure { text, finishReason, model := actualModel, promptTokens, completionTokens, totalTokens }

def generatePayload (model prompt : Str) (maxTokens : Int) (temperature : Json)
    (stop : List Str) : Json :=
  .obj <|
    [("model".toList, .str model),
      ("messages".toList,
        .arr [.obj [("role".toList, .str "user".toList), ("content".toList, .str prompt)]]),
      ("max_tokens".toList, .int maxTokens),
      ("temperature".toList, temperature)] ++
    if stop = [] then [] else [("stop".toList, .arr (stop.map .str))]

/-- Mirrors `generate` (generation/openai_compatible.py:106-135); `post` is the endpoint. -/
def generate (c : Client) (post : Json → Nat → Reply) (model prompt : Str) (maxTokens : Int)
    (temperature : Json) (stop : List Str) : Py GenerationResult :=
  if maxTokens ≤ 0 then
    throw (.valueError ("max_tokens must be positive, got ".toList ++ intStr maxTokens))
  else do
    let data ← (requestWithRetry c (post (generatePayload model prompt maxTokens temperature
      stop))).1
    parseCompletion model data

def embedPayload (model : Str) (texts : List Str) : Json :=
  .obj [("model".toList, .str model), ("input".toList, .arr (texts.map .str))]

/-- `embed` over the endpoint. -/
def embed (c : Client) (p : OpenAiCompatible.Adapter) (float : Json → Py (Option ℚ))
    (post : Json → Nat → Reply) (texts : List Str) : Py (List Vec) :=
  OpenAiCompatible.embed p float
    (fun texts => (requestWithRetry c (post (embedPayload p.model texts))).1) texts

/-! ## Answers -/

/-- Nothing, or a dictionary. -/
def MaybeDict (value : Json) : Prop := value.truthy = false ∨ ∃ members, value = .obj members

/-- The member of a dictionary, `None` when it has none. -/
def memberOf (members : JsonDict) (key : Str) : Json := (JsonDict.get members key).getD .null

/-- A chat completion with a first choice; its message and the usage may be missing. -/
def Complete (data : Json) : Prop := ∃ members choice rest, data = .obj members ∧
  memberOf members "choices".toList = .arr (.obj choice :: rest) ∧
  MaybeDict (memberOf choice "message".toList) ∧ MaybeDict (memberOf members "usage".toList)

theorem getMember_obj {members : JsonDict} {key : Str} :
    getMember (.obj members) key = .ok (memberOf members key) := rfl

theorem getMember_ok {value r : Json} {key : Str} : getMember value key = .ok r ↔
    ∃ members, value = .obj members ∧ memberOf members key = r := by
  unfold getMember memberOf
  split
  · simp
  · simp_all

/-- What stands for nothing is the empty dictionary. -/
theorem orElse_obj_iff {value : Json} :
    (∃ members, orElse value (.obj []) = .obj members) ↔ MaybeDict value := by
  unfold orElse MaybeDict
  split
  · simp_all
  · simp_all

/-- The first choice can be read as a dictionary only when it is one, in a list. -/
theorem firstOf_obj {choices : Json} {choice : JsonDict} (h : firstOf choices = .ok (.obj choice)) :
    ∃ rest, choices = .arr (.obj choice :: rest) := by
  unfold firstOf at h
  split at h
  · rename_i rest
    rw [Py.pure_ok] at h
    exact ⟨rest, by rw [h]⟩
  · cases Py.pure_ok.mp h
  · simp at h
  · simp at h

theorem returns_bind {α β : Type} {x : Py α} {f : α → Py β} {a : α} (hx : x = .ok a)
    (h : ∃ b, f a = .ok b) : ∃ b, (x >>= f) = .ok b := by
  obtain ⟨b, hb⟩ := h
  exact ⟨b, Py.bind_ok.mpr ⟨a, hx, hb⟩⟩

theorem parseCompletion_returns_iff {model : Str} {data : Json} :
    (∃ result, parseCompletion model data = .ok result) ↔ Complete data := by
  constructor
  · intro ⟨result, h⟩
    obtain ⟨choices, hchoices, h⟩ := Py.bind_ok.mp h
    obtain ⟨members, rfl, rfl⟩ := getMember_ok.mp hchoices
    dsimp only at h
    split at h
    · simp [bind, Except.bind, throw, throwThe, MonadExceptOf.throw] at h
    · obtain ⟨choice, hchoice, h⟩ := Py.bind_ok.mp h
      obtain ⟨message, hmessage, h⟩ := Py.bind_ok.mp h
      obtain ⟨choiceMembers, rfl, rfl⟩ := getMember_ok.mp hmessage
      obtain ⟨text, htext, h⟩ := Py.bind_ok.mp h
      obtain ⟨messageMembers, hm, -⟩ := getMember_ok.mp htext
      obtain ⟨reason, -, h⟩ := Py.bind_ok.mp h
      obtain ⟨usage, husage, h⟩ := Py.bind_ok.mp h
      obtain ⟨_, hu, rfl⟩ := getMember_ok.mp husage
      obtain ⟨tokens, htokens, -⟩ := Py.bind_ok.mp h
      obtain ⟨usageMembers, hu', -⟩ := getMember_ok.mp htokens
      cases hu
      obtain ⟨rest, hrest⟩ := firstOf_obj hchoice
      have hlist : memberOf members "choices".toList = .arr (.obj choiceMembers :: rest) := by
        unfold orElse at hrest
        split at hrest
        · exact hrest
        · cases hrest
      exact ⟨members, choiceMembers, rest, rfl, hlist, orElse_obj_iff.mp ⟨_, hm⟩,
        orElse_obj_iff.mp ⟨_, hu'⟩⟩
  · intro ⟨members, choice, rest, hdata, hchoices, hmessage, husage⟩
    subst hdata
    obtain ⟨messageMembers, hm⟩ := orElse_obj_iff.mpr hmessage
    obtain ⟨usageMembers, hu⟩ := orElse_obj_iff.mpr husage
    have hchoice : orElse (memberOf members "choices".toList) (.arr []) =
        .arr (.obj choice :: rest) := by
      rw [hchoices]
      rfl
    refine returns_bind getMember_obj ?_
    dsimp only
    rw [hchoice, if_neg (by simp [Json.truthy])]
    have hfirst : firstOf (.arr (.obj choice :: rest)) = .ok (.obj choice) := rfl
    refine returns_bind hfirst (returns_bind getMember_obj ?_)
    rw [hm]
    refine returns_bind getMember_obj (returns_bind getMember_obj (returns_bind getMember_obj ?_))
    rw [hu]
    exact ⟨_, rfl⟩

/-! ## When a call returns -/

/-- Behind replies that may be retried, the endpoint sends this JSON to an attempt that is made. -/
def Delivers (c : Client) (respond : Nat → Reply) (data : Json) : Prop :=
  ∃ k ≤ c.lastAttempt, (∀ i < k, (respond i).retryable = true) ∧
    ∃ text, respond k = .response 200 text (.ok data)

section
variable (c : Client) (post : Json → Nat → Reply)

theorem generate_ok_iff {model prompt : Str} {maxTokens : Int} {temperature : Json}
    {stop : List Str} {result : GenerationResult} :
    generate c post model prompt maxTokens temperature stop = .ok result ↔
      0 < maxTokens ∧ ∃ data,
        Delivers c (post (generatePayload model prompt maxTokens temperature stop)) data ∧
        parseCompletion model data = .ok result := by
  unfold generate
  split
  · simp
    omega
  · rw [Py.bind_ok]
    simp only [requestWithRetry_ok_iff]
    constructor
    · intro h
      exact ⟨by omega, h⟩
    · intro h
      exact h.2

theorem embed_ok_iff {p : OpenAiCompatible.Adapter} {float : Json → Py (Option ℚ)}
    {texts : List Str} {out : List Vec} (ht : texts ≠ []) :
    embed c p float post texts = .ok out ↔ ∃ data,
      Delivers c (post (embedPayload p.model texts)) data ∧
      OpenAiCompatible.parseVectors p float data texts.length = .ok out := by
  unfold embed OpenAiCompatible.embed
  rw [if_neg ht, Py.bind_ok]
  simp only [requestWithRetry_ok_iff]
  rfl

/-- **When a call returns.** The endpoint sends, after nothing but failures that may be retried and
before the retries or the floats of the backoff run out, a 200 whose JSON is a chat completion, or an embedding for each text; nothing
else makes either call return, an empty batch apart. -/
theorem calls_return_iff (p : OpenAiCompatible.Adapter) (float : Json → Py (Option ℚ))
    (model prompt : Str) (maxTokens : Int) (temperature : Json) (stop texts : List Str) :
    ((∃ result, generate c post model prompt maxTokens temperature stop = .ok result) ↔
      0 < maxTokens ∧ ∃ data,
        Delivers c (post (generatePayload model prompt maxTokens temperature stop)) data ∧
        Complete data) ∧
    ((∃ out, embed c p float post texts = .ok out) ↔
      texts = [] ∨ ∃ data, Delivers c (post (embedPayload p.model texts)) data ∧
        OpenAiCompatible.Acceptable p float data texts.length) := by
  constructor
  · simp only [generate_ok_iff]
    constructor
    · intro ⟨result, hpos, data, hdata, h⟩
      exact ⟨hpos, data, hdata, parseCompletion_returns_iff.mp ⟨result, h⟩⟩
    · intro ⟨hpos, data, hdata, hcomplete⟩
      obtain ⟨result, h⟩ := parseCompletion_returns_iff.mpr hcomplete
      exact ⟨result, hpos, data, hdata, h⟩
  · by_cases ht : texts = []
    · subst ht
      simp [embed, OpenAiCompatible.embed, pure, Except.pure]
    · simp only [embed_ok_iff c post ht, ← OpenAiCompatible.parseVectors_returns_iff]
      constructor
      · intro ⟨out, data, hdata, h⟩
        exact .inr ⟨data, hdata, out, h⟩
      · intro h
        obtain ⟨data, hdata, out, h⟩ := h.resolve_left ht
        exact ⟨out, data, hdata, h⟩

end

end KnowledgeKiln.L1.Endpoint
