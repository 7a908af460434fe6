import KnowledgeKiln.Core.Run
import KnowledgeKiln.L2Retrieval.Types

/-!
# The registry cache

`GET /v1/registry` (api/registry.py) keeps the last payload and the time it was asked for in two
globals. A request that finds them missing or too old runs one query for each dimension, and other
requests run between any two of these; then it writes both globals and answers, without another
await in between.

* `Since`: rows that were read from the database within a stretch of time.
* `step_cases`: what one step of one request does.
* `step_inv`: a payload is never older than the time it is filed under.
* `registry_fresh`: how old each list of an answer can be, whatever the order of the steps.
* `no_snapshot`: the lists of one answer need not be of one instant.
-/
namespace KnowledgeKiln.L4.Registry

open KnowledgeKiln.Core KnowledgeKiln.L2

/-! ## The globals and the requests -/

inductive RegistryDimension
  | status | docType | owner | repo | authority | sensitivity | system
  deriving DecidableEq, Repr

/-- The keys of `_DIMENSION_COLUMNS` (db/repositories/registry.py:29-37). -/
def dimensionColumns : List RegistryDimension :=
  [.status, .docType, .owner, .repo, .authority, .sensitivity, .system]

structure RegistryValue where
  value : Str
  count : Nat
  lastIndexed : Option Date

/-- The value lists of some dimensions. -/
abbrev Dimensions := List (RegistryDimension × List RegistryValue)

structure RegistryResponse where
  dimensions : Dimensions
  asOf : ℚ

/-- A request inside `_build_response`: when it read the clock, and the queries answered so far. -/
structure Building where
  start : ℚ
  dimension : Option RegistryDimension
  rows : Dimensions

/-- What a request that read the clock at `start` was told at `time`. -/
structure Answer where
  start : ℚ
  time : ℚ
  dimension : Option RegistryDimension
  response : RegistryResponse

structure State where
  cacheBuiltAt : Option ℚ := none
  cachePayload : Option RegistryResponse := none
  building : Nat → Option Building := fun _ => none
  answered : List Answer := []
  clock : ℚ

inductive Action
  /-- The request reads the clock and checks the TTL. -/
  | start (id : Nat) (dimension : Option RegistryDimension)
  /-- Its next query runs in the database. -/
  | aggregate (id : Nat)
  /-- It resumes behind the last query. -/
  | finish (id : Nat)
  /-- It is cancelled, or a query raises. -/
  | fail (id : Nat)

structure Event where
  time : ℚ
  action : Action

/-- mirrors api/registry.py:56-62 -/
def ttlExpired (registryCacheSeconds : ℤ) (s : State) (now : ℚ) : Bool :=
  match s.cacheBuiltAt, s.cachePayload with
  | some builtAt, some _ => (registryCacheSeconds : ℚ) ≤ now - builtAt
  | _, _ => true

/-- The end of `registry` (registry.py:114-124). -/
def respond (dimension : Option RegistryDimension) (payload : RegistryResponse) :
    RegistryResponse :=
  match dimension with
  | none => payload
  | some d => ⟨[(d, (lookupFirst payload.dimensions d).getD [])], payload.asOf⟩

section
variable {Db : Type} (aggregate : Db → RegistryDimension → List RegistryValue) (contents : ℚ → Db)
  (registryCacheSeconds : ℤ)

/-- One step of one request; the clock does not go back. `contents` is the database over time, and
`aggregate` what it answers to the query of a dimension. -/
def step (s : State) (e : Event) : Option State :=
  if e.time < s.clock then none
  else match e.action with
    | .start id dimension =>
      if (s.building id).isSome then none
      else if ttlExpired registryCacheSeconds s e.time then
        some { s with
          building := Function.update s.building id (some ⟨e.time, dimension, []⟩)
          clock := e.time }
      else s.cachePayload.map fun payload =>
        { s with
          answered := s.answered ++ [⟨e.time, e.time, dimension, respond dimension payload⟩]
          clock := e.time }
    | .aggregate id =>
      match s.building id with
      | none => none
      | some b => dimensionColumns[b.rows.length]?.map fun d =>
        { s with
          building := Function.update s.building id
            (some { b with rows := b.rows ++ [(d, aggregate (contents e.time) d)] })
          clock := e.time }
    | .finish id =>
      match s.building id with
      | none => none
      | some b =>
        if b.rows.length = dimensionColumns.length then
          some
            { cacheBuiltAt := some b.start
              cachePayload := some ⟨b.rows, e.time⟩
              building := Function.update s.building id none
              answered := s.answered ++
                [⟨b.start, e.time, b.dimension, respond b.dimension ⟨b.rows, e.time⟩⟩]
              clock := e.time }
        else none
    | .fail id =>
      match s.building id with
      | none => none
      | some _ =>
        some { s with building := Function.update s.building id none, clock := e.time }

/-! ## Snapshots -/

/-- Each list was read from the database at some time in between. -/
def Since (first last : ℚ) (rows : Dimensions) : Prop :=
  ∀ p ∈ rows, ∃ u, first ≤ u ∧ u ≤ last ∧ p.2 = aggregate (contents u) p.1

/-- The dimensions that a request asks for. -/
def requested : Option RegistryDimension → List RegistryDimension
  | none => dimensionColumns
  | some d => [d]

/-- An answer has a list for each dimension that was asked for, and each list was read no earlier
than the TTL before the request read the clock. -/
structure Fresh (a : Answer) : Prop where
  keys : a.response.dimensions.map Prod.fst = requested a.dimension
  since : Since aggregate contents (a.start - max 0 (registryCacheSeconds : ℚ)) a.time
    a.response.dimensions

/-- Some dimensions in the order of their queries. -/
structure Read (first last : ℚ) (rows : Dimensions) : Prop where
  since : Since aggregate contents first last rows
  keys : rows.map Prod.fst = dimensionColumns.take rows.length

/-- What holds between any two steps. -/
structure Inv (s : State) : Prop where
  cached : ∀ builtAt payload, s.cacheBuiltAt = some builtAt → s.cachePayload = some payload →
    builtAt ≤ s.clock ∧ Read aggregate contents builtAt s.clock payload.dimensions ∧
      payload.dimensions.length = dimensionColumns.length
  building : ∀ id b, s.building id = some b →
    b.start ≤ s.clock ∧ Read aggregate contents b.start s.clock b.rows
  answered : ∀ a ∈ s.answered, Fresh aggregate contents registryCacheSeconds a

end

section
variable {Db : Type} {aggregate : Db → RegistryDimension → List RegistryValue} {contents : ℚ → Db}
  {registryCacheSeconds : ℤ} {first first' last last' : ℚ} {rows : Dimensions}

theorem Since.mono (h : Since aggregate contents first last rows) (hf : first' ≤ first)
    (hl : last ≤ last') : Since aggregate contents first' last' rows := by
  intro p hp
  obtain ⟨u, hu, hu', he⟩ := h p hp
  exact ⟨u, hf.trans hu, hu'.trans hl, he⟩

theorem Read.mono (h : Read aggregate contents first last rows) (hl : last ≤ last') :
    Read aggregate contents first last' rows :=
  ⟨h.since.mono le_rfl hl, h.keys⟩

theorem Read.nil : Read aggregate contents first last [] := ⟨nofun, rfl⟩

/-- The next query. -/
theorem Read.snoc {d : RegistryDimension} (h : Read aggregate contents first last rows)
    (hd : dimensionColumns[rows.length]? = some d) (hf : first ≤ last') (hl : last ≤ last') :
    Read aggregate contents first last' (rows ++ [(d, aggregate (contents last') d)]) := by
  constructor
  · intro p hp
    rcases List.mem_append.mp hp with hp | hp
    · exact h.since.mono le_rfl hl p hp
    · rw [List.mem_singleton.mp hp]
      exact ⟨last', hf, le_rfl, rfl⟩
  · rw [List.map_append, h.keys, List.length_append, List.length_singleton, List.take_add_one, hd]
    rfl

theorem Read.keys_all (h : Read aggregate contents first last rows)
    (hlen : rows.length = dimensionColumns.length) : rows.map Prod.fst = dimensionColumns := by
  rw [h.keys, hlen, List.take_length]

/-- A complete payload answers for each dimension. -/
theorem Read.respond {payload : RegistryResponse} (dimension : Option RegistryDimension)
    (h : Read aggregate contents first last payload.dimensions)
    (hlen : payload.dimensions.length = dimensionColumns.length) :
    (respond dimension payload).dimensions.map Prod.fst = requested dimension ∧
      Since aggregate contents first last (respond dimension payload).dimensions := by
  have hkeys := h.keys_all hlen
  cases dimension with
  | none => exact ⟨hkeys, h.since⟩
  | some d =>
    have hkey : d ∈ payload.dimensions.map Prod.fst := by
      rw [hkeys]
      cases d <;> decide
    obtain ⟨values, hv⟩ := Option.isSome_iff_exists.mp (lookupFirst_isSome.mpr hkey)
    refine ⟨rfl, fun p hp => ?_⟩
    rw [Registry.respond, hv] at hp
    rw [List.mem_singleton.mp hp]
    exact h.since _ (mem_of_lookupFirst hv)

/-! ## One step -/

variable {s s' : State} {e : Event}

/-- What a step does: a rebuild begins, an answer comes from the cache, a query is answered, a
rebuild is written and answers, or a request fails. -/
theorem step_cases (h : step aggregate contents registryCacheSeconds s e = some s') :
    s.clock ≤ e.time ∧
    ((∃ id dimension, s' = { s with
        building := Function.update s.building id (some ⟨e.time, dimension, []⟩)
        clock := e.time }) ∨
      (∃ dimension builtAt payload, s.cacheBuiltAt = some builtAt ∧
        s.cachePayload = some payload ∧ e.time - builtAt < registryCacheSeconds ∧
        s' = { s with
          answered := s.answered ++ [⟨e.time, e.time, dimension, respond dimension payload⟩]
          clock := e.time }) ∨
      (∃ id b d, s.building id = some b ∧ dimensionColumns[b.rows.length]? = some d ∧
        s' = { s with
          building := Function.update s.building id
            (some { b with rows := b.rows ++ [(d, aggregate (contents e.time) d)] })
          clock := e.time }) ∨
      (∃ id b, s.building id = some b ∧ b.rows.length = dimensionColumns.length ∧
        s' =
          { cacheBuiltAt := some b.start
            cachePayload := some ⟨b.rows, e.time⟩
            building := Function.update s.building id none
            answered := s.answered ++
              [⟨b.start, e.time, b.dimension, respond b.dimension ⟨b.rows, e.time⟩⟩]
            clock := e.time }) ∨
      ∃ id, s' = { s with building := Function.update s.building id none, clock := e.time }) := by
  unfold step at h
  split at h
  · cases h
  rename_i hclock
  refine ⟨not_lt.mp hclock, ?_⟩
  split at h
  · split at h
    · cases h
    split at h
    · exact .inl ⟨_, _, (Option.some.inj h).symm⟩
    · rename_i hfresh
      obtain ⟨payload, hp, h⟩ := Option.map_eq_some_iff.mp h
      unfold ttlExpired at hfresh
      split at hfresh
      · rename_i builtAt payload' hb hp'
        exact .inr (.inl ⟨_, builtAt, payload, hb, hp, by simpa using hfresh, h.symm⟩)
      · exact absurd rfl hfresh
  · split at h
    · cases h
    · rename_i b hb
      obtain ⟨d, hd, h⟩ := Option.map_eq_some_iff.mp h
      exact .inr (.inr (.inl ⟨_, b, d, hb, hd, h.symm⟩))
  · split at h
    · cases h
    · rename_i b hb
      split at h
      · rename_i hlen
        exact .inr (.inr (.inr (.inl ⟨_, b, hb, hlen, (Option.some.inj h).symm⟩)))
      · cases h
  · split at h
    · cases h
    · exact .inr (.inr (.inr (.inr ⟨_, (Option.some.inj h).symm⟩)))

/-- Time passes. -/
theorem Inv.cached_le (hi : Inv aggregate contents registryCacheSeconds s) {now : ℚ}
    (hnow : s.clock ≤ now) {builtAt : ℚ} {payload : RegistryResponse}
    (hb : s.cacheBuiltAt = some builtAt) (hp : s.cachePayload = some payload) :
    builtAt ≤ now ∧ Read aggregate contents builtAt now payload.dimensions ∧
      payload.dimensions.length = dimensionColumns.length := by
  obtain ⟨hle, hread, hlen⟩ := hi.cached builtAt payload hb hp
  exact ⟨hle.trans hnow, hread.mono hnow, hlen⟩

theorem Inv.building_le (hi : Inv aggregate contents registryCacheSeconds s) {now : ℚ}
    (hnow : s.clock ≤ now) {id : Nat} {b : Building} (hb : s.building id = some b) :
    b.start ≤ now ∧ Read aggregate contents b.start now b.rows := by
  obtain ⟨hle, hread⟩ := hi.building id b hb
  exact ⟨hle.trans hnow, hread.mono hnow⟩

/-- The other rebuilds stay as they are, and so do the properties they have. -/
theorem building_update {P : Building → Prop} {id : Nat} {o : Option Building}
    (h : ∀ id b, s.building id = some b → P b) (ho : ∀ b, o = some b → P b) :
    ∀ id' b, Function.update s.building id o id' = some b → P b := by
  intro id' b hb
  by_cases he : id' = id
  · rw [he, Function.update_self] at hb
    exact ho b hb
  · rw [Function.update_of_ne he] at hb
    exact h id' b hb

theorem answered_snoc {a : Answer} {P : Answer → Prop} (h : ∀ a ∈ s.answered, P a) (ha : P a) :
    ∀ a' ∈ s.answered ++ [a], P a' := by
  intro a' ha'
  rcases List.mem_append.mp ha' with ha' | ha'
  · exact h a' ha'
  · rw [List.mem_singleton.mp ha']
    exact ha

/-- **One step.** A payload is filed under a time that none of its queries came before, whichever
rebuild was the last to be written. -/
theorem step_inv (hi : Inv aggregate contents registryCacheSeconds s)
    (h : step aggregate contents registryCacheSeconds s e = some s') :
    Inv aggregate contents registryCacheSeconds s' := by
  obtain ⟨hnow, h⟩ := step_cases h
  have hcached : ∀ builtAt payload, s.cacheBuiltAt = some builtAt → s.cachePayload = some payload →
      builtAt ≤ e.time ∧ Read aggregate contents builtAt e.time payload.dimensions ∧
        payload.dimensions.length = dimensionColumns.length := fun _ _ => hi.cached_le hnow
  have hbuilding : ∀ id b, s.building id = some b →
      b.start ≤ e.time ∧ Read aggregate contents b.start e.time b.rows := fun _ _ =>
    hi.building_le hnow
  have hnone : ∀ b, (none : Option Building) = some b →
      b.start ≤ e.time ∧ Read aggregate contents b.start e.time b.rows := nofun
  rcases h with ⟨id, dimension, rfl⟩ | ⟨dimension, builtAt, payload, hb, hp, hage, rfl⟩ |
    ⟨id, b, d, hb, hd, rfl⟩ | ⟨id, b, hb, hlen, rfl⟩ | ⟨id, rfl⟩
  · refine ⟨hcached, building_update hbuilding fun b hb => ?_, hi.answered⟩
    cases hb
    exact ⟨le_rfl, Read.nil⟩
  · refine ⟨hcached, hbuilding, answered_snoc hi.answered ?_⟩
    obtain ⟨hle, hread, hlen⟩ := hcached builtAt payload hb hp
    have hpast : e.time - max 0 (registryCacheSeconds : ℚ) ≤ builtAt := by
      have := le_max_right 0 (registryCacheSeconds : ℚ)
      linarith
    obtain ⟨hkeys, hsince⟩ := hread.respond dimension hlen
    exact ⟨hkeys, hsince.mono hpast le_rfl⟩
  · refine ⟨hcached, building_update hbuilding fun b' hb' => ?_, hi.answered⟩
    cases hb'
    obtain ⟨hle, hread⟩ := hi.building id b hb
    exact ⟨hle.trans hnow, hread.snoc hd (hle.trans hnow) hnow⟩
  · -- both globals come from the request that finishes now
    obtain ⟨hle, hread⟩ := hbuilding id b hb
    refine ⟨fun builtAt payload hb' hp' => ?_, building_update hbuilding hnone,
      answered_snoc hi.answered ?_⟩
    · cases hb'
      cases hp'
      exact ⟨hle, hread, hlen⟩
    · have hpast : b.start - max 0 (registryCacheSeconds : ℚ) ≤ b.start := by
        have := le_max_left 0 (registryCacheSeconds : ℚ)
        linarith
      have hwritten : Read aggregate contents b.start e.time
          (⟨b.rows, e.time⟩ : RegistryResponse).dimensions := hread
      obtain ⟨hkeys, hsince⟩ := hwritten.respond b.dimension hlen
      exact ⟨hkeys, hsince.mono hpast le_rfl⟩
  · exact ⟨hcached, building_update hbuilding hnone, hi.answered⟩

end

/-- **Staleness.** Whatever the order of the steps, an answer has a list for each dimension that was
asked for and no others, and every list was in the database no earlier than the TTL before the
request read the clock. A negative TTL, which the settings do not refuse, caches nothing. -/
theorem registry_fresh {Db : Type} (aggregate : Db → RegistryDimension → List RegistryValue)
    (contents : ℚ → Db) (registryCacheSeconds : ℤ) (clock : ℚ) (events : List Event) (s : State)
    (h : exec (step aggregate contents registryCacheSeconds) { clock } events = some s) :
    ∀ a ∈ s.answered, a.response.dimensions.map Prod.fst = requested a.dimension ∧
      ∀ p ∈ a.response.dimensions, ∃ u,
        a.start - max 0 (registryCacheSeconds : ℚ) ≤ u ∧ u ≤ a.time ∧
          p.2 = aggregate (contents u) p.1 := by
  have hinit : Inv aggregate contents registryCacheSeconds { clock } := ⟨nofun, nofun, nofun⟩
  have hinv := exec_invariant (fun _ _ _ hi _ hs => step_inv hi hs) hinit
    (guarded_of_forall fun _ _ _ => trivial) h
  exact fun a ha => ⟨(hinv.answered a ha).keys, (hinv.answered a ha).since⟩

/-- The second request overtakes the first, whose payload then replaces the newer one; the third is
answered from it. -/
def overtaken : List Event :=
  [⟨0, .start 0 none⟩, ⟨1, .start 1 (some .repo)⟩] ++
    List.replicate 7 ⟨2, .aggregate 1⟩ ++ [⟨3, .finish 1⟩] ++
    List.replicate 7 ⟨4, .aggregate 0⟩ ++ [⟨5, .finish 0⟩, ⟨200, .start 2 (some .owner)⟩]

/-- A database with one more document each second. -/
def growing (u : ℚ) : Nat := u.floor.toNat

def countedRows (db : Nat) (_ : RegistryDimension) : List RegistryValue := [⟨"any", db, none⟩]

theorem registry_fresh_overtaken : ∃ s,
    exec (step countedRows growing 300) { clock := 0 } overtaken = some s ∧
      s.answered.map (fun a => (a.start, a.dimension)) =
        [(1, some .repo), (0, none), (200, some .owner)] ∧
      ∀ a ∈ s.answered, a.response.dimensions.map Prod.fst = requested a.dimension ∧
        ∀ p ∈ a.response.dimensions, ∃ u,
          a.start - max 0 ((300 : ℤ) : ℚ) ≤ u ∧ u ≤ a.time ∧ p.2 = countedRows (growing u) p.1 := by
  have hrun : (exec (step countedRows growing 300) { clock := 0 } overtaken).map
      (fun s => s.answered.map fun a => (a.start, a.dimension)) =
        some [(1, some .repo), (0, none), (200, some .owner)] := by
    decide +kernel
  obtain ⟨s, hs, hanswered⟩ := Option.map_eq_some_iff.mp hrun
  exact ⟨s, hs, hanswered, registry_fresh countedRows growing 300 0 overtaken s hs⟩

/-- One request, whose queries run second after second. -/
def slow : List Event :=
  [⟨0, .start 0 none⟩, ⟨1, .aggregate 0⟩, ⟨2, .aggregate 0⟩, ⟨3, .aggregate 0⟩, ⟨4, .aggregate 0⟩,
    ⟨5, .aggregate 0⟩, ⟨6, .aggregate 0⟩, ⟨7, .aggregate 0⟩, ⟨8, .finish 0⟩]

/-- The counts that a run of these queries gives, answer by answer. -/
def slowCounts (registryCacheSeconds : ℤ) : Option (List (ℚ × List Nat)) :=
  (exec (step countedRows growing registryCacheSeconds) { clock := 0 } slow).map fun s =>
    s.answered.map fun a =>
      (a.start, a.response.dimensions.flatMap fun p => p.2.map RegistryValue.count)

theorem slow_answered {registryCacheSeconds : ℤ}
    (hrun : slowCounts registryCacheSeconds = some [(0, [1, 2, 3, 4, 5, 6, 7])]) :
    ∃ s, exec (step countedRows growing registryCacheSeconds) { clock := 0 } slow = some s ∧
      ∃ a ∈ s.answered, a.start = 0 ∧ ∀ n ∈ [1, 2], ∃ p ∈ a.response.dimensions,
        ∀ u, p.2 = countedRows (growing u) p.1 → growing u = n := by
  obtain ⟨s, hs, hanswered⟩ := Option.map_eq_some_iff.mp hrun
  obtain ⟨a, hanswer, ha⟩ := List.map_eq_singleton_iff.mp hanswered
  obtain ⟨hstart, hcounts⟩ := Prod.mk.inj ha
  refine ⟨s, hs, a, by simp [hanswer], hstart, fun n hn => ?_⟩
  have hmem : n ∈ a.response.dimensions.flatMap fun p => p.2.map RegistryValue.count := by
    rw [hcounts]
    exact List.mem_of_mem_take (i := 2) hn
  obtain ⟨p, hp, hcount⟩ := List.mem_flatMap.mp hmem
  refine ⟨p, hp, fun u hu => ?_⟩
  rw [hu] at hcount
  exact (List.mem_singleton.mp hcount).symm

/-- The seven lists were read at seven instants, and no instant has them all. With a TTL below zero
a list is older than a request may be told. -/
theorem no_snapshot :
    (∃ s, exec (step countedRows growing 300) { clock := 0 } slow = some s ∧
      ∃ a ∈ s.answered, ¬∃ u, ∀ p ∈ a.response.dimensions, p.2 = countedRows (growing u) p.1) ∧
    ∃ s, exec (step countedRows growing (-100)) { clock := 0 } slow = some s ∧
      ∃ a ∈ s.answered, ∃ p ∈ a.response.dimensions, ¬∃ u, a.start - ((-100 : ℤ) : ℚ) ≤ u ∧
        p.2 = countedRows (growing u) p.1 := by
  constructor
  · obtain ⟨s, hs, a, ha, -, hcounts⟩ := @slow_answered 300 (by decide +kernel)
    refine ⟨s, hs, a, ha, fun ⟨u, hu⟩ => ?_⟩
    obtain ⟨p, hp, hone⟩ := hcounts 1 (by decide)
    obtain ⟨q, hq, htwo⟩ := hcounts 2 (by decide)
    have := (hone u (hu p hp)).symm.trans (htwo u (hu q hq))
    omega
  · obtain ⟨s, hs, a, ha, hstart, hcounts⟩ := @slow_answered (-100) (by decide +kernel)
    obtain ⟨p, hp, hone⟩ := hcounts 1 (by decide)
    refine ⟨s, hs, a, ha, p, hp, fun ⟨u, hlate, hu⟩ => ?_⟩
    have hone := hone u hu
    have hfloor : (100 : ℤ) ≤ u.floor := by
      rw [hstart] at hlate
      refine Rat.le_floor_iff.mpr ?_
      push_cast at hlate ⊢
      linarith
    unfold growing at hone
    omega

end KnowledgeKiln.L4.Registry
