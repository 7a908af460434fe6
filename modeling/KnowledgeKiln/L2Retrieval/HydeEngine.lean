import KnowledgeKiln.L2Retrieval.EngineHelpers
import KnowledgeKiln.L2Retrieval.Fusion
import KnowledgeKiln.L2Retrieval.HydeCache

/-!
# HyDE (retrieval/hyde/)

`HydeEngine.expand` asks a generator for a text to embed in place of the query. It may be suspended
once, at the `await` of the generator; meanwhile other requests read and write the same cache.
`beforeAwait` and `afterAwait` are the two halves.

* `Served`: what an expansion may return.
* `Inv`: the cache says the truth about the replies, step by step.
* `expansions_served`: whatever the order of the requests, a text that is embedded was generated for
  this query, up to case and spacing, and is not too old.
* `asked_again`: what it takes for the generator to be asked again.
-/
namespace KnowledgeKiln.L2.Expand

open KnowledgeKiln.Core KnowledgeKiln.L2.Engine KnowledgeKiln.L2.Hyde

/-! ## The gate (retrieval/hyde/classifier.py) -/

/-- `[t for t in re.split(r"\s+", s.strip()) if t]`; also `s.split()`. -/
def tokens (s : Str) : List Str := ((strip s).splitOnP isSpace).filter (· ≠ [])

/-- `[a-z][A-Z]|[A-Z][a-z][a-z]*[A-Z]` at the start of a text. -/
def innerCaseFlipAt : Str → Bool
  | a :: b :: s => (a.isLower && b.isUpper) ||
    (a.isUpper && b.isLower && (s.dropWhile Char.isLower).head?.any Char.isUpper)
  | _ => false

/-- mirrors retrieval/hyde/classifier.py:56-65. `isupper` is asked of ASCII only. -/
def isJargonLike (token : Str) : Bool :=
  if token.any (!·.isAlphanum) then true
  else if 2 ≤ token.length && token.any Char.isUpper && !token.any Char.isLower then true
  else if token.tails.any innerCaseFlipAt then true
  else 12 ≤ token.length

/-- mirrors retrieval/hyde/classifier.py:68-78 -/
def jargonDensity (env : Env) (query : Str) : ℚ :=
  if tokens query = [] then 0
  else env.fl ((tokens query).countP isJargonLike / (tokens query).length)

def tokenCount (query : Str) : Nat := (tokens query).length

/-- The alternatives of `_IMPERATIVE_PREFIX`, optional parts written out; between two words stands
`\s+`. -/
def imperativePrefixes : List (List Str) :=
  [["how"], ["how", "do"], ["how", "to"], ["how", "can"], ["how", "does"], ["how", "should"],
    ["what"], ["what", "is"], ["what", "are"], ["what's"],
    ["why"], ["why", "does"], ["why", "is"],
    ["when"], ["when", "does"], ["when", "is"], ["when", "to"],
    ["where"], ["where", "is"], ["where", "are"], ["where", "do"],
    ["which"], ["explain"], ["describe"], ["show", "me"], ["tell", "me", "about"], ["can", "I"],
    ["should", "I"]]

/-- What is left of `s` behind the words. -/
def afterWords (env : Env) : List Str → Str → Option Str
  | [], s => some s
  | [w], s => afterPhrase env w s
  | w :: ws, s => (afterPhrase env w s).bind fun rest =>
    if rest.head?.any isSpace then afterWords env ws (rest.dropWhile isSpace) else none

/-- `_IMPERATIVE_PREFIX.search(s)`, mirrors retrieval/hyde/classifier.py:25-39 -/
def imperative (env : Env) (s : Str) : Bool :=
  let start := s.dropWhile isSpace
  imperativePrefixes.any fun words =>
    match afterWords env words start with
    | none => false
    | some rest =>
      wordBoundary env (start.take (start.length - rest.length)).getLast? rest.head?

/-- mirrors retrieval/hyde/classifier.py:87-114 -/
def shouldHyde (env : Env) (query : Str) (tokenThreshold : Int) (jargonDensityThreshold : ℚ) :
    Bool :=
  let cleaned := strip query
  if cleaned = [] then false
  else if tokenCount cleaned < tokenThreshold then true
  else if jargonDensityThreshold < jargonDensity env cleaned then true
  else imperative env cleaned

/-! ## The engine (retrieval/hyde/engine.py) -/

/-- What the engine takes from the standard library. -/
structure Library where
  env : Env
  /-- `str.lower` -/
  lower : Str → Str
  /-- `hashlib.sha256(s.encode()).hexdigest()` -/
  sha256 : Str → Str

/-- What the engine reads of its `GeneratorProvider`. -/
structure Generator where
  provider : Str
  model : Str

structure HydeEngine where
  generator : Option Generator
  cache : HydeCache
  tokenThreshold : Int
  jargonDensityThreshold : ℚ
  maxTokens : Int

structure HydeResult where
  pseudoDoc : Option Str
  cacheHit : Bool := false
  generationMs : Option ℚ := none
  deriving DecidableEq

/-- mirrors retrieval/hyde/prompt.py:29-56 -/
def renderPrompt (query : Str) : Str :=
  "You are drafting a short technical-documentation paragraph that would ".toList ++
  "answer the user's question. The paragraph will be embedded and used to ".toList ++
  "search a documentation corpus — it is NOT shown to the user.\n\nRules:\n".toList ++
  "- Write in declarative voice (\"The system does X\", \"Y is configured by Z\").\n".toList ++
  "- One paragraph, roughly 100-150 words.\n".toList ++
  "- Use the domain language the real documentation would use.\n".toList ++
  "- Do NOT cite sources, do NOT use phrases like \"according to\" or \"as documented\".\n".toList ++
  "- Do NOT include numbered lists, headings, or markdown formatting.\n".toList ++
  "- If the question is ambiguous, draft the most-common interpretation.\n\n".toList ++
  "Question:\n".toList ++ strip query ++ "\n\nParagraph:".toList

section
variable (lib : Library)

/-- mirrors retrieval/hyde/engine.py:71-80 -/
def normalizeForCache (query : Str) : Str := join " " (tokens (lib.lower (strip query)))

/-- What `cache_key` hashes (retrieval/hyde/cache.py:28-37). -/
def rawKey (g : Generator) (normalizedQuery : Str) : Str :=
  g.provider ++ '\x00' :: g.model ++ '\x00' :: normalizedQuery

def cacheKey (g : Generator) (normalizedQuery : Str) : Str :=
  lib.sha256 (rawKey g normalizedQuery)

variable (e : HydeEngine)

/-- The key under which a query is expanded; `none` where it is not. -/
def keyOf (query : Str) : Option Str :=
  if shouldHyde lib.env query e.tokenThreshold e.jargonDensityThreshold then
    e.generator.map fun g => cacheKey lib g (normalizeForCache lib query)
  else none

/-- Where an expansion stands. -/
inductive Phase
  /-- It returned without asking the generator. -/
  | finished (time : ℚ) (result : HydeResult)
  /-- It awaits the generator, since the given reading of `perf_counter`. -/
  | generating (key prompt : Str) (start : ℚ)
  /-- The generator replied, with the `text` of a result or an exception. -/
  | replied (time : ℚ) (reply : Py Str) (result : HydeResult)
  | cancelled
  deriving DecidableEq

/-- `expand` up to the `await`, mirrors retrieval/hyde/engine.py:106-138. -/
def beforeAwait (store : Hyde.Store) (query : Str) (now perf : ℚ) : Phase × Hyde.Store :=
  match keyOf lib e query with
  | none => (.finished now { pseudoDoc := none }, store)
  | some key =>
    match e.cache.get store key now with
    | (some hit, store) => (.finished now { pseudoDoc := some hit, cacheHit := true }, store)
    | (none, store) => (.generating key (renderPrompt query) perf, store)

/-- `expand` behind the `await`, mirrors retrieval/hyde/engine.py:139-171. -/
def afterAwait (store : Hyde.Store) (key : Str) (start : ℚ) (reply : Py Str) (now perf : ℚ) :
    HydeResult × Hyde.Store :=
  match reply with
  | .error _ => ({ pseudoDoc := none }, store)
  | .ok text =>
    let generationMs := lib.env.fl (lib.env.fl (perf - start) * 1000)
    let text := strip text
    if text = [] then ({ pseudoDoc := none }, store)
    else
      ({ pseudoDoc := some text, generationMs := some generationMs },
        e.cache.put store key text now)

end

/-- mirrors retrieval/_engine_helpers.py:194-226: the text to embed, whether it is a pseudo-document,
and what the span reports. -/
def embeddingTextForVectorArm (query : Str) (hyde : Option HydeResult) :
    Str × Bool × Bool × Option ℚ :=
  match hyde with
  | none => (query, false, false, none)
  | some result =>
    match result.pseudoDoc with
    | none | some [] => (query, false, result.cacheHit, result.generationMs)
    | some doc => (doc, true, result.cacheHit, result.generationMs)

/-! ## Requests on one event loop -/

structure Expansion where
  query : Str
  phase : Phase
  deriving DecidableEq

/-- The expansions are in the order they were started in; `history` is that of the cache, last to
first. -/
structure World where
  store : Hyde.Store := .empty
  clock : ℚ
  history : List Done := []
  expansions : List Expansion := []

/-- What happens next, with the readings of the two clocks. -/
inductive Event
  | expand (query : Str) (now perf : ℚ)
  | reply (i : Nat) (reply : Py Str) (now perf : ℚ)
  | cancel (i : Nat)

/-- What a read of the cache leaves in its history. -/
def readOf (lib : Library) (e : HydeEngine) (query : Str) : Phase → List Done
  | .finished .. => (keyOf lib e query).toList.map .hit
  | _ => (keyOf lib e query).toList.map .miss

/-- What a reply leaves in it. -/
def writeOf (key : Str) (now : ℚ) (result : HydeResult) : List Done :=
  result.pseudoDoc.toList.map (.put now key)

/-- One step; the clock of the cache does not go back. -/
def step (lib : Library) (e : HydeEngine) (w : World) : Event → Option World
  | .expand query now perf =>
    if now < w.clock then none
    else
      let (phase, store) := beforeAwait lib e w.store query now perf
      some
        { store
          clock := now
          history := readOf lib e query phase ++ w.history
          expansions := w.expansions ++ [{ query, phase }] }
  | .reply i reply now perf =>
    match w.expansions[i]? with
    | some { query, phase := .generating key _ start } =>
      if now < w.clock then none
      else
        let (result, store) := afterAwait lib e w.store key start reply now perf
        some
          { store
            clock := now
            history := writeOf key now result ++ w.history
            expansions := w.expansions.set i { query, phase := .replied now reply result } }
    | _ => none
  | .cancel i =>
    match w.expansions[i]? with
    | some { query, phase := .generating .. } =>
      some { w with expansions := w.expansions.set i { query, phase := .cancelled } }
    | _ => none

/-! ## What is returned -/

def Phase.result : Phase → Option (ℚ × HydeResult)
  | .finished time result => some (time, result)
  | .replied time _ result => some (time, result)
  | _ => none

/-- One of the expansions got the text from the generator, for a query with the key. -/
def Generated (lib : Library) (e : HydeEngine) (expansions : List Expansion) (key doc : Str)
    (time : ℚ) : Prop :=
  ∃ y ∈ expansions, ∃ text result, y.phase = .replied time (.ok text) result ∧
    strip text = doc ∧ keyOf lib e y.query = some key

/-- The text may stand for the query at the time. -/
structure Served (lib : Library) (e : HydeEngine) (expansions : List Expansion) (query doc : Str)
    (time : ℚ) : Prop where
  gate : shouldHyde lib.env query e.tokenThreshold e.jargonDensityThreshold = true
  nonblank : strip doc = doc ∧ doc ≠ []
  generated : ∃ y ∈ expansions, ∃ t text result, y.phase = .replied t (.ok text) result ∧
    strip text = doc ∧ normalizeForCache lib y.query = normalizeForCache lib query ∧
    t ≤ time ∧ time - t ≤ e.cache.ttl

/-- The result of an expansion that did not ask the generator. -/
def Unasked (lib : Library) (e : HydeEngine) (expansions : List Expansion) (query : Str)
    (now : ℚ) (result : HydeResult) : Prop :=
  result = { pseudoDoc := none } ∨
    ∃ key doc time, keyOf lib e query = some key ∧
      result = { pseudoDoc := some doc, cacheHit := true } ∧ doc ≠ [] ∧ time ≤ now ∧
      now - time ≤ e.cache.ttl ∧ Generated lib e expansions key doc time

/-- The result of an expansion that asked, and what the cache knows of it since. -/
def Answered (lib : Library) (e : HydeEngine) (history : List Done) (query : Str) (time : ℚ)
    (reply : Py Str) (result : HydeResult) : Prop :=
  ∃ key, keyOf lib e query = some key ∧ result.cacheHit = false ∧
    ∀ text, reply = .ok text → strip text ≠ [] →
      result.pseudoDoc = some (strip text) ∧
      ∃ entry, lastPut key history = some entry ∧ time ≤ entry.1

structure Inv (lib : Library) (e : HydeEngine) (w : World) : Prop where
  cache : Hyde.Inv e.cache ⟨w.store, w.history, w.clock⟩
  uncleared : ∀ key, ¬clearedSincePut key w.history
  puts : ∀ key entry, lastPut key w.history = some entry → entry.2 ≠ [] ∧ entry.1 ≤ w.clock ∧
    Generated lib e w.expansions key entry.2 entry.1
  finished : ∀ x ∈ w.expansions, ∀ time result, x.phase = .finished time result →
    Unasked lib e w.expansions x.query time result
  generating : ∀ x ∈ w.expansions, ∀ key prompt start, x.phase = .generating key prompt start →
    keyOf lib e x.query = some key
  replied : ∀ x ∈ w.expansions, ∀ time reply result, x.phase = .replied time reply result →
    Answered lib e w.history x.query time reply result ∧
      (result.pseudoDoc.isSome → ∃ text, reply = .ok text ∧ strip text ≠ [])

/-! ## One step -/

section
variable {lib : Library} {e : HydeEngine} {c : HydeCache} {w : World} {store store' : Hyde.Store}
  {history : List Done} {clock now perf : ℚ} {key query doc : Str} {phase : Phase}
  {result : HydeResult} {expansions : List Expansion}

theorem get_hit (hi : Hyde.Inv c ⟨store, history, clock⟩) (hnow : clock ≤ now)
    (h : c.get store key now = (some doc, store')) :
    (∃ time, lastPut key history = some (time, doc) ∧ now - time ≤ c.ttl) ∧
      Hyde.Inv c ⟨store', .hit key :: history, now⟩ := by
  unfold HydeCache.get at h
  split at h
  · cases h
  rename_i storedAt value hget
  split at h
  · cases h
  rename_i hfresh
  cases h
  exact ⟨⟨storedAt, hi.present key _ hget, not_lt.mp hfresh⟩, hi.hit hnow hget⟩

theorem get_miss (hi : Hyde.Inv c ⟨store, history, clock⟩) (hnow : clock ≤ now)
    (h : c.get store key now = (none, store')) :
    (∀ entry, lastPut key history = some entry → Gone c history key entry.1 now) ∧
      Hyde.Inv c ⟨store', .miss key :: history, now⟩ := by
  unfold HydeCache.get at h
  split at h
  · rename_i hget
    cases h
    exact ⟨fun entry hlast => (hi.absent key entry hlast hget).mono hnow, hi.miss hnow⟩
  rename_i storedAt value hget
  split at h
  · rename_i hlate
    cases h
    refine ⟨fun entry hlast => .inl ?_, hi.expired hnow hget hlate⟩
    cases (hi.present key _ hget).symm.trans hlast
    exact hlate
  · cases h

/-- The clock goes on. -/
theorem cache_tick (hi : Hyde.Inv c ⟨store, history, clock⟩) (hnow : clock ≤ now) :
    Hyde.Inv c ⟨store, history, now⟩ :=
  ⟨hi.length_le, hi.inOrder, hi.present, fun key entry hlast hnone =>
    (hi.absent key entry hlast hnone).mono hnow⟩

/-- **Up to the `await`.** An expansion is skipped, finds a text, or goes on to the generator. -/
theorem beforeAwait_cases (h : beforeAwait lib e store query now perf = (phase, store')) :
    (keyOf lib e query = none ∧ phase = .finished now { pseudoDoc := none } ∧ store' = store) ∨
    ∃ key, keyOf lib e query = some key ∧
      ((∃ doc, e.cache.get store key now = (some doc, store') ∧
        phase = .finished now { pseudoDoc := some doc, cacheHit := true }) ∨
      (e.cache.get store key now = (none, store') ∧
        phase = .generating key (renderPrompt query) perf)) := by
  unfold beforeAwait at h
  split at h
  · rename_i hkey
    cases h
    exact .inl ⟨hkey, rfl, rfl⟩
  rename_i key hkey
  split at h
  · rename_i hit _ hget
    cases h
    exact .inr ⟨key, hkey, .inl ⟨hit, hget, rfl⟩⟩
  · rename_i hget
    cases h
    exact .inr ⟨key, hkey, .inr ⟨hget, rfl⟩⟩

/-- **Behind it.** A text with something in it is stored and returned, and nothing else is. -/
theorem afterAwait_cases {start : ℚ} {reply : Py Str}
    (h : afterAwait lib e store key start reply now perf = (result, store')) :
    (result = { pseudoDoc := none } ∧ store' = store ∧
      ∀ text, reply = .ok text → strip text = []) ∨
    ∃ text ms, reply = .ok text ∧ strip text ≠ [] ∧
      result = { pseudoDoc := some (strip text), generationMs := some ms } ∧
      store' = e.cache.put store key (strip text) now := by
  unfold afterAwait at h
  split at h
  · cases h
    exact .inl ⟨rfl, rfl, nofun⟩
  rename_i text
  dsimp only at h
  split at h
  · rename_i hblank
    cases h
    refine .inl ⟨rfl, rfl, ?_⟩
    rintro _ ⟨⟩
    exact hblank
  · rename_i hne
    cases h
    exact .inr ⟨text, _, rfl, hne, rfl, rfl⟩

theorem Generated.mono (h : Generated lib e expansions key doc now) {expansions' : List Expansion}
    (hsub : ∀ y ∈ expansions, y.phase.result.isSome → y ∈ expansions') :
    Generated lib e expansions' key doc now := by
  obtain ⟨y, hy, text, result, hphase, htext, hkey⟩ := h
  refine ⟨y, hsub y hy ?_, text, result, hphase, htext, hkey⟩
  rw [hphase]
  rfl

theorem Unasked.mono (h : Unasked lib e expansions query now result)
    {expansions' : List Expansion}
    (hsub : ∀ y ∈ expansions, y.phase.result.isSome → y ∈ expansions') :
    Unasked lib e expansions' query now result := by
  refine h.imp_right ?_
  rintro ⟨key, doc, time, hkey, hres, hne, htime, hfresh, hgen⟩
  exact ⟨key, doc, time, hkey, hres, hne, htime, hfresh, hgen.mono hsub⟩

/-- A read leaves the puts alone. -/
theorem lastPut_reads {reads : List Done} (hr : ∀ d ∈ reads, ∃ k, d = .hit k ∨ d = .miss k)
    (key : Str) : lastPut key (reads ++ history) = lastPut key history ∧
      (clearedSincePut key (reads ++ history) ↔ clearedSincePut key history) := by
  induction reads with
  | nil => exact ⟨rfl, Iff.rfl⟩
  | cons d reads ih =>
    obtain ⟨hd, hrest⟩ := List.forall_mem_cons.mp hr
    obtain ⟨k, rfl | rfl⟩ := hd
    · exact ih hrest
    · exact ih hrest

theorem readOf_reads (lib : Library) (e : HydeEngine) (query : Str) (phase : Phase) :
    ∀ d ∈ readOf lib e query phase, ∃ k, d = .hit k ∨ d = .miss k := by
  intro d hd
  unfold readOf at hd
  split at hd <;> obtain ⟨k, -, rfl⟩ := List.mem_map.mp hd
  · exact ⟨k, .inl rfl⟩
  · exact ⟨k, .inr rfl⟩

theorem inv_init (lib : Library) (e : HydeEngine) (clock : ℚ) : Inv lib e { clock } where
  cache := Hyde.inv_init e.cache clock
  uncleared := fun _ => id
  puts := nofun
  finished := nofun
  generating := nofun
  replied := nofun

/-- The expansions of a world, and one more that asks for nothing the others know. -/
theorem Inv.expand (hi : Inv lib e w) (hnow : w.clock ≤ now)
    (hb : beforeAwait lib e w.store query now perf = (phase, store')) :
    Inv lib e ⟨store', now, readOf lib e query phase ++ w.history,
      w.expansions ++ [⟨query, phase⟩]⟩ := by
  have hsub : ∀ y ∈ w.expansions, y.phase.result.isSome → y ∈ w.expansions ++ [⟨query, phase⟩] :=
    fun y hy _ => List.mem_append_left _ hy
  have hreads := readOf_reads lib e query phase
  have hcache : Hyde.Inv e.cache ⟨store', readOf lib e query phase ++ w.history, now⟩ ∧
      (∀ time result, phase = .finished time result →
        Unasked lib e w.expansions query time result) ∧
      ∀ key prompt start, phase = .generating key prompt start →
        keyOf lib e query = some key := by
    rcases beforeAwait_cases hb with ⟨hkey, rfl, rfl⟩ | ⟨key, hkey, ⟨doc, hget, rfl⟩ | ⟨hget, rfl⟩⟩
    · simp only [readOf, hkey, Option.toList_none, List.map_nil, List.nil_append]
      refine ⟨cache_tick hi.cache hnow, ?_, nofun⟩
      rintro _ _ ⟨⟩
      exact .inl rfl
    · simp only [readOf, hkey, Option.toList_some, List.map_cons, List.map_nil, List.cons_append,
        List.nil_append]
      obtain ⟨⟨time, hlast, hfresh⟩, hcache⟩ := get_hit hi.cache hnow hget
      refine ⟨hcache, ?_, nofun⟩
      rintro _ _ ⟨⟩
      obtain ⟨hne, htime, hgen⟩ := hi.puts key _ hlast
      exact .inr ⟨key, doc, time, hkey, rfl, hne, htime.trans hnow, hfresh, hgen⟩
    · simp only [readOf, hkey, Option.toList_some, List.map_cons, List.map_nil, List.cons_append,
        List.nil_append]
      refine ⟨(get_miss hi.cache hnow hget).2, nofun, ?_⟩
      rintro _ _ _ ⟨⟩
      rfl
  obtain ⟨hcache, hfin, hgen⟩ := hcache
  refine ⟨hcache, fun key => ?_, fun key entry h => ?_, fun x hx time result hp => ?_,
    fun x hx key prompt start hp => ?_, fun x hx time reply result hp => ?_⟩
  · exact fun h => hi.uncleared key ((lastPut_reads hreads key).2.mp h)
  · rw [(lastPut_reads hreads key).1] at h
    obtain ⟨hne, htime, hgen⟩ := hi.puts key entry h
    exact ⟨hne, htime.trans hnow, hgen.mono hsub⟩
  · rcases List.mem_append.mp hx with hx | hx
    · exact (hi.finished x hx time result hp).mono hsub
    · cases List.mem_singleton.mp hx
      exact (hfin time result hp).mono hsub
  · rcases List.mem_append.mp hx with hx | hx
    · exact hi.generating x hx key prompt start hp
    · cases List.mem_singleton.mp hx
      exact hgen key prompt start hp
  · rcases List.mem_append.mp hx with hx | hx
    · obtain ⟨⟨key, hkey, hhit, hlast⟩, htext⟩ := hi.replied x hx time reply result hp
      refine ⟨⟨key, hkey, hhit, fun text hr hne => ?_⟩, htext⟩
      rw [(lastPut_reads hreads key).1]
      exact hlast text hr hne
    · -- no expansion is answered before it is suspended
      cases List.mem_singleton.mp hx
      rcases beforeAwait_cases hb with ⟨_, he, _⟩ | ⟨_, _, ⟨_, _, he⟩ | ⟨_, he⟩⟩ <;>
        cases he.symm.trans hp

/-- An expansion that awaits the generator is replaced; what returned is still there. -/
theorem mem_set {i : Nat} {key prompt : Str} {start : ℚ}
    (hx : w.expansions[i]? = some ⟨query, .generating key prompt start⟩) (phase : Phase) :
    (∀ y ∈ w.expansions, y.phase.result.isSome → y ∈ w.expansions.set i ⟨query, phase⟩) ∧
      ∀ y ∈ w.expansions.set i ⟨query, phase⟩, y ∈ w.expansions ∨ y = ⟨query, phase⟩ := by
  refine ⟨fun y hy hres => ?_, fun y hy => List.mem_or_eq_of_mem_set hy⟩
  obtain ⟨j, hj⟩ := List.mem_iff_getElem?.mp hy
  refine List.mem_iff_getElem?.mpr ⟨j, ?_⟩
  have hne : i ≠ j := by
    rintro rfl
    rw [hx] at hj
    cases hj
    cases hres
  rw [List.getElem?_set_ne hne, hj]

theorem mem_set_self {i : Nat} {x y : Expansion} (hx : w.expansions[i]? = some x) :
    y ∈ w.expansions.set i y :=
  List.mem_set (List.getElem?_eq_some_iff.mp hx).1 y

theorem lastPut_write (key' : Str) : lastPut key' (writeOf key now result ++ history) =
    if key' = key then (result.pseudoDoc.map (now, ·)).or (lastPut key' history)
    else lastPut key' history := by
  unfold writeOf
  cases result.pseudoDoc with
  | none => simp
  | some doc =>
    by_cases h : key' = key
    · simp [lastPut, h]
    · simp [lastPut, h, Ne.symm h]

theorem uncleared_write (key' : Str) (h : ¬clearedSincePut key' history) :
    ¬clearedSincePut key' (writeOf key now result ++ history) := by
  unfold writeOf
  cases result.pseudoDoc with
  | none => exact h
  | some doc => exact fun hcleared => h hcleared.2

/-- The generator replied: its text is what the cache holds from now on. -/
theorem Inv.reply (hi : Inv lib e w) (hnow : w.clock ≤ now) {i : Nat} {prompt : Str} {start : ℚ}
    {reply : Py Str} (hx : w.expansions[i]? = some ⟨query, .generating key prompt start⟩)
    (ha : afterAwait lib e w.store key start reply now perf = (result, store')) :
    Inv lib e ⟨store', now, writeOf key now result ++ w.history,
      w.expansions.set i ⟨query, .replied now reply result⟩⟩ := by
  obtain ⟨hsub, hset⟩ := mem_set hx (.replied now reply result)
  have hkey := hi.generating _ (List.mem_of_getElem? hx) key prompt start rfl
  have hcases := afterAwait_cases ha
  refine ⟨?_, fun key' => uncleared_write key' (hi.uncleared key'), fun key' entry h => ?_,
    fun x hmem time result' hp => ?_, fun x hmem key' prompt' start' hp => ?_,
    fun x hmem time reply' result' hp => ?_⟩
  · rcases hcases with ⟨rfl, rfl, -⟩ | ⟨text, ms, -, -, rfl, rfl⟩
    · exact cache_tick hi.cache hnow
    · exact hi.cache.put hnow
  · rw [lastPut_write] at h
    have hold : lastPut key' w.history = some entry → entry.2 ≠ [] ∧ entry.1 ≤ now ∧
        Generated lib e (w.expansions.set i ⟨query, .replied now reply result⟩) key' entry.2
          entry.1 := by
      intro h
      obtain ⟨hne, htime, hgen⟩ := hi.puts key' entry h
      exact ⟨hne, htime.trans hnow, hgen.mono hsub⟩
    split at h
    · rename_i he
      rcases hcases with ⟨rfl, -, -⟩ | ⟨text, ms, rfl, hne, rfl, -⟩
      · exact hold h
      · cases h
        exact ⟨hne, le_refl _, _, mem_set_self hx, text, _, rfl, rfl, he ▸ hkey⟩
    · exact hold h
  · rcases hset x hmem with hmem | rfl
    · exact (hi.finished x hmem time result' hp).mono hsub
    · cases hp
  · rcases hset x hmem with hmem | rfl
    · exact hi.generating x hmem key' prompt' start' hp
    · cases hp
  · rcases hset x hmem with hmem | rfl
    · obtain ⟨⟨key', hkey', hhit, hlast⟩, htext⟩ := hi.replied x hmem time reply' result' hp
      refine ⟨⟨key', hkey', hhit, fun text hr hne => ?_⟩, htext⟩
      obtain ⟨hdoc, entry, hput, htime⟩ := hlast text hr hne
      refine ⟨hdoc, ?_⟩
      rw [lastPut_write]
      split
      · cases hdoc' : result.pseudoDoc with
        | none => exact ⟨entry, hput, htime⟩
        | some doc =>
          exact ⟨(now, doc), rfl, htime.trans ((hi.puts key' entry hput).2.1.trans hnow)⟩
      · exact ⟨entry, hput, htime⟩
    · cases hp
      refine ⟨⟨key, hkey, ?_, fun text hr hne => ?_⟩, fun hsome => ?_⟩
      · rcases hcases with ⟨rfl, -, -⟩ | ⟨text, ms, -, -, rfl, -⟩ <;> rfl
      · rcases hcases with ⟨-, -, hblank⟩ | ⟨text', ms, hr', -, rfl, -⟩
        · exact absurd (hblank text hr) hne
        · cases hr.symm.trans hr'
          refine ⟨rfl, ?_⟩
          rw [lastPut_write, if_pos rfl]
          exact ⟨_, rfl, le_refl _⟩
      · rcases hcases with ⟨rfl, -, -⟩ | ⟨text, ms, hr, hne, -, -⟩
        · cases hsome
        · exact ⟨text, hr, hne⟩

theorem Inv.cancel (hi : Inv lib e w) {i : Nat} {prompt : Str} {start : ℚ}
    (hx : w.expansions[i]? = some ⟨query, .generating key prompt start⟩) :
    Inv lib e { w with expansions := w.expansions.set i ⟨query, .cancelled⟩ } := by
  obtain ⟨hsub, hset⟩ := mem_set hx .cancelled
  refine ⟨hi.cache, hi.uncleared, fun key' entry h => ?_, fun x hmem time result' hp => ?_,
    fun x hmem key' prompt' start' hp => ?_, fun x hmem time reply' result' hp => ?_⟩
  · obtain ⟨hne, htime, hgen⟩ := hi.puts key' entry h
    exact ⟨hne, htime, hgen.mono hsub⟩
  · rcases hset x hmem with hmem | rfl
    · exact (hi.finished x hmem time result' hp).mono hsub
    · cases hp
  · rcases hset x hmem with hmem | rfl
    · exact hi.generating x hmem key' prompt' start' hp
    · cases hp
  · rcases hset x hmem with hmem | rfl
    · exact hi.replied x hmem time reply' result' hp
    · cases hp

/-- **One step.** -/
theorem step_inv {w' : World} {event : Event} (hi : Inv lib e w)
    (h : step lib e w event = some w') : Inv lib e w' := by
  cases event with
  | expand query now perf =>
    simp only [step] at h
    split at h
    · cases h
    rename_i hnow
    cases h
    exact hi.expand (not_lt.mp hnow) rfl
  | reply i reply now perf =>
    simp only [step] at h
    split at h
    · rename_i query key prompt start hx
      split at h
      · cases h
      rename_i hnow
      cases h
      exact hi.reply (not_lt.mp hnow) hx rfl
    · cases h
  | cancel i =>
    simp only [step] at h
    split at h
    · rename_i hx
      cases h
      exact hi.cancel hx
    · cases h

end

/-! ## Every order of requests -/

/-- No two of the expanded queries collide in the hash. -/
def CollisionFree (lib : Library) (g : Generator) (expansions : List Expansion) : Prop :=
  ∀ x ∈ expansions, ∀ y ∈ expansions,
    lib.sha256 (rawKey g (normalizeForCache lib x.query)) =
      lib.sha256 (rawKey g (normalizeForCache lib y.query)) →
    rawKey g (normalizeForCache lib x.query) = rawKey g (normalizeForCache lib y.query)

section
variable {lib : Library} {e : HydeEngine} {w : World} {query key : Str}

theorem keyOf_eq_some : keyOf lib e query = some key ↔
    shouldHyde lib.env query e.tokenThreshold e.jargonDensityThreshold = true ∧
      ∃ g, e.generator = some g ∧ cacheKey lib g (normalizeForCache lib query) = key := by
  unfold keyOf
  split
  · rename_i h
    simp [h]
  · rename_i h
    simp [h]

/-- Queries with one key have one normal form. -/
theorem normalize_of_key {g : Generator} (hg : e.generator = some g)
    (hfree : CollisionFree lib g w.expansions) {x y : Expansion} (hx : x ∈ w.expansions)
    (hy : y ∈ w.expansions) (hkx : keyOf lib e x.query = some key)
    (hky : keyOf lib e y.query = some key) :
    normalizeForCache lib y.query = normalizeForCache lib x.query := by
  obtain ⟨-, gx, hgx, hx'⟩ := keyOf_eq_some.mp hkx
  obtain ⟨-, gy, hgy, hy'⟩ := keyOf_eq_some.mp hky
  cases hg.symm.trans hgx
  cases hg.symm.trans hgy
  have hraw := hfree y hy x hx (hy'.trans hx'.symm)
  simp only [rawKey, List.append_cancel_left_eq, List.cons.injEq, true_and] at hraw
  exact hraw

theorem served_of_unasked {g : Generator} (hg : e.generator = some g)
    (hfree : CollisionFree lib g w.expansions) {x : Expansion} (hx : x ∈ w.expansions)
    {time : ℚ} {result : HydeResult} (h : Unasked lib e w.expansions x.query time result)
    {doc : Str} (hdoc : result.pseudoDoc = some doc) :
    Served lib e w.expansions x.query doc time := by
  rcases h with rfl | ⟨key, doc', t, hkey, rfl, hne, htime, hfresh, y, hy, text, r, hphase, rfl, hky⟩
  · cases hdoc
  cases hdoc
  refine ⟨(keyOf_eq_some.mp hkey).1, ⟨strip_strip text, hne⟩, y, hy, t, text, r, hphase, rfl, ?_,
    htime, hfresh⟩
  exact normalize_of_key hg hfree hx hy hkey hky

theorem served_of_answered {x : Expansion} (hx : x ∈ w.expansions) {time : ℚ} {reply : Py Str}
    {result : HydeResult} (hphase : x.phase = .replied time reply result)
    (h : Answered lib e w.history x.query time reply result)
    (htext : result.pseudoDoc.isSome → ∃ text, reply = .ok text ∧ strip text ≠ []) {doc : Str}
    (hdoc : result.pseudoDoc = some doc) : Served lib e w.expansions x.query doc time := by
  obtain ⟨key, hkey, -, hlast⟩ := h
  obtain ⟨text, rfl, hne⟩ := htext (hdoc ▸ rfl)
  obtain ⟨hdoc', -⟩ := hlast text rfl hne
  cases hdoc.symm.trans hdoc'
  refine ⟨(keyOf_eq_some.mp hkey).1, ⟨strip_strip text, hne⟩, x, hx, time, text, result, hphase, rfl,
    rfl, le_refl _, ?_⟩
  rw [sub_self]
  exact e.cache.ttl_pos.le

theorem run_inv {clock : ℚ} {events : List Event} (h : exec (step lib e) { clock } events = some w) :
    Inv lib e w :=
  exec_invariant (fun _ _ _ hi _ hs => step_inv hi hs) (inv_init lib e clock)
    (guarded_of_forall fun _ _ _ => trivial) h

/-- What has returned had asked, or had not. -/
theorem Inv.returned (hi : Inv lib e w) {x : Expansion} (hx : x ∈ w.expansions) {time : ℚ}
    {result : HydeResult} (hres : x.phase.result = some (time, result)) :
    (x.phase = .finished time result ∧ Unasked lib e w.expansions x.query time result) ∨
    ∃ reply, x.phase = .replied time reply result ∧
      Answered lib e w.history x.query time reply result ∧
      (result.pseudoDoc.isSome → ∃ text, reply = .ok text ∧ strip text ≠ []) := by
  cases hphase : x.phase with
  | finished t r =>
    rw [hphase] at hres
    cases hres
    exact .inl ⟨rfl, hi.finished x hx _ _ hphase⟩
  | replied t reply r =>
    rw [hphase] at hres
    cases hres
    exact .inr ⟨reply, rfl, hi.replied x hx _ _ _ hphase⟩
  | generating key prompt start =>
    rw [hphase] at hres
    cases hres
  | cancelled =>
    rw [hphase] at hres
    cases hres

/-- A hit has a text, and did not ask. -/
theorem Inv.hit (hi : Inv lib e w) {x : Expansion} (hx : x ∈ w.expansions) {time : ℚ}
    {result : HydeResult} (hres : x.phase.result = some (time, result))
    (hhit : result.cacheHit = true) : x.phase = .finished time result ∧ result.pseudoDoc ≠ none := by
  rcases hi.returned hx hres with ⟨hphase, rfl | ⟨_, _, _, _, rfl, -⟩⟩ | ⟨_, -, ⟨_, -, hno, -⟩, -⟩
  · cases hhit
  · exact ⟨hphase, nofun⟩
  · rw [hno] at hhit
    cases hhit

/-- **No needless question.** A new expansion goes on to the generator although one with the same
normal form was answered: the answer is too old, or was pushed out. -/
theorem Inv.asked_again (hi : Inv lib e w) {now perf : ℚ} (hnow : w.clock ≤ now)
    {prompt : Str} {start : ℚ} {store : Hyde.Store}
    (hb : beforeAwait lib e w.store query now perf = (.generating key prompt start, store))
    {y : Expansion} (hy : y ∈ w.expansions) {t : ℚ} {text : Str} {result : HydeResult}
    (hphase : y.phase = .replied t (.ok text) result) (hne : strip text ≠ [])
    (hnorm : normalizeForCache lib y.query = normalizeForCache lib query) :
    e.cache.ttl < now - t ∨ e.cache.maxEntries ≤ (since (touches w.history) key).card := by
  rcases beforeAwait_cases hb with ⟨-, he, -⟩ | ⟨key', hkey, ⟨_, _, he⟩ | ⟨hget, he⟩⟩
  · cases he
  · cases he
  cases he
  obtain ⟨⟨key', hky, -, hlast⟩, -⟩ := hi.replied y hy _ _ _ hphase
  obtain ⟨-, entry, hput, htime⟩ := hlast text rfl hne
  have hsame : key' = key := by
    obtain ⟨-, gy, hgy, rfl⟩ := keyOf_eq_some.mp hky
    obtain ⟨-, gx, hgx, rfl⟩ := keyOf_eq_some.mp hkey
    cases hgy.symm.trans hgx
    rw [hnorm]
  subst hsame
  rcases (get_miss hi.cache hnow hget).1 entry hput with hlate | hcleared | hcard
  · refine .inl ?_
    linarith
  · exact absurd hcleared (hi.uncleared key')
  · exact .inr hcard

end

/-- **HyDE.** Whatever the order in which the requests come, are suspended and are answered: what
the vector arm embeds is the query itself, or a text that the generator wrote for the same query up
to case and spacing, at most `ttl` ago. A cache hit asks no generator, and the generator is asked
about an answered query only when the answer is too old or `max_entries` others came since. -/
theorem expansions_served (lib : Library) (e : HydeEngine) (g : Generator)
    (hg : e.generator = some g) (clock : ℚ) (events : List Event) (w : World)
    (h : exec (step lib e) { clock } events = some w) (hfree : CollisionFree lib g w.expansions) :
    (∀ x ∈ w.expansions, ∀ time result, x.phase.result = some (time, result) →
      ∀ text used hit ms, embeddingTextForVectorArm x.query (some result) = (text, used, hit, ms) →
        (if used then Served lib e w.expansions x.query text time
          else text = x.query ∧ hit = false) ∧
        (hit = true → x.phase = .finished time result)) ∧
    ∀ query now perf key prompt start store, w.clock ≤ now →
      beforeAwait lib e w.store query now perf = (.generating key prompt start, store) →
        ∀ y ∈ w.expansions, ∀ t text result, y.phase = .replied t (.ok text) result →
          strip text ≠ [] → normalizeForCache lib y.query = normalizeForCache lib query →
          e.cache.ttl < now - t ∨ e.cache.maxEntries ≤ (since (touches w.history) key).card := by
  have hi := run_inv h
  refine ⟨fun x hx time result hres text used hit ms htext => ?_,
    fun query now perf key prompt start store hnow hb y hy t text result hphase hne hnorm =>
      hi.asked_again hnow hb hy hphase hne hnorm⟩
  have hserved : ∀ doc, result.pseudoDoc = some doc →
      Served lib e w.expansions x.query doc time := by
    intro doc hdoc
    rcases hi.returned hx hres with ⟨-, hun⟩ | ⟨reply, hphase, hans, hsome⟩
    · exact served_of_unasked hg hfree hx hun hdoc
    · exact served_of_answered hx hphase hans hsome hdoc
  have hhit := hi.hit hx hres
  simp only [embeddingTextForVectorArm] at htext
  split at htext
  · rename_i hdoc
    cases htext
    refine ⟨⟨rfl, ?_⟩, fun hh => (hhit hh).1⟩
    exact Bool.eq_false_iff.mpr fun hh => (hhit hh).2 hdoc
  · -- a served text is not empty
    rename_i hdoc
    exact absurd rfl (hserved _ hdoc).nonblank.2
  · rename_i doc _ hdoc
    cases htext
    exact ⟨hserved _ hdoc, fun hh => (hhit hh).1⟩

/-- Two users and a slow generator. -/
def sampleLibrary : Library := { env := Fusion.exactEnv, lower := Core.lower, sha256 := id }

def sampleEngine : HydeEngine where
  generator := some { provider := "mock", model := "m" }
  cache := oneEntry
  tokenThreshold := 8
  jargonDensityThreshold := 2 / 5
  maxTokens := 200

def sampleEvents : List Event :=
  [.expand "offsite backup" 0 0, .expand "Offsite  Backup" 1 1, .reply 0 (.ok " Nightly. ") 2 2,
    .expand "OFFSITE backup " 3 3, .reply 1 (.error (.runtimeError "timeout")) 4 4]

theorem sample_run : (exec (step sampleLibrary sampleEngine) { clock := 0 } sampleEvents).map
    (fun w => (w.expansions.map (·.phase.result), w.expansions.map (·.query))) =
    some ([some (2, { pseudoDoc := some "Nightly.".toList, generationMs := some 2000 }),
      some (4, { pseudoDoc := none }),
      some (3, { pseudoDoc := some "Nightly.".toList, cacheHit := true })],
      ["offsite backup".toList, "Offsite  Backup".toList, "OFFSITE backup ".toList]) := by
  decide +kernel

/-- The third request embeds what the first one got; the second falls back to its query. -/
theorem expansions_served_sample :
    ∃ w, exec (step sampleLibrary sampleEngine) { clock := 0 } sampleEvents = some w ∧
      ∃ x ∈ w.expansions, x.query = "OFFSITE backup ".toList ∧
        Served sampleLibrary sampleEngine w.expansions x.query "Nightly." 3 := by
  obtain ⟨w, hw, he⟩ := Option.map_eq_some_iff.mp sample_run
  have hserved := expansions_served sampleLibrary sampleEngine _ rfl 0 sampleEvents w hw
    fun _ _ _ _ h => h
  obtain ⟨hres, hqueries⟩ := Prod.ext_iff.mp he
  have hlen : 2 < w.expansions.length := by
    have hl := congrArg List.length hqueries
    rw [List.length_map] at hl
    exact hl ▸ by decide
  have hphase : w.expansions[2].phase.result =
      some (3, { pseudoDoc := some "Nightly.".toList, cacheHit := true }) := by
    have hget := congrArg (fun l => l[2]?) hres
    simpa [hlen] using hget
  have hquery : w.expansions[2].query = "OFFSITE backup ".toList := by
    have hget := congrArg (fun l => l[2]?) hqueries
    simpa [hlen] using hget
  refine ⟨w, hw, w.expansions[2], List.getElem_mem hlen, hquery, ?_⟩
  exact (hserved.1 _ (List.getElem_mem hlen) _ _ hphase _ true true none rfl).1

end KnowledgeKiln.L2.Expand
