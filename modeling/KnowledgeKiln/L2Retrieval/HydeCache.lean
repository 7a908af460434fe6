import KnowledgeKiln.Core.Recency
import KnowledgeKiln.Core.Run
import Mathlib.Data.Rat.Defs

/-!
# The cache of pseudo-documents

`HydeCache` (retrieval/hyde/cache.py): an `OrderedDict` whose entries carry the time of their `put`.
A `get` deletes an entry that is too old and moves any other to the end; a `put` drops entries from
the front when there are too many. The clock is a rational number, and ages are exact.

* `Inv`: what the dictionary says about the history.
* `Inv.hit`, `Inv.expired`, `Inv.put`, `Inv.clear`: each operation keeps it.
* `hyde_cache_spec`: what is read, and why not, behind every history.
-/
namespace KnowledgeKiln.L2.Hyde

open KnowledgeKiln.Core

structure HydeCache where
  ttl : ℚ
  maxEntries : Nat
  ttl_pos : 0 < ttl
  maxEntries_pos : 0 < maxEntries

/-- `_store`: when each value was put, the least recently used first. -/
abbrev Store := OrderedDict Str (ℚ × Str)

namespace HydeCache

/-- mirrors retrieval/hyde/cache.py:63-78 -/
def get (c : HydeCache) (store : Store) (key : Str) (now : ℚ) : Option Str × Store :=
  match store.get key with
  | none => (none, store)
  | some (storedAt, value) =>
    if c.ttl < now - storedAt then (none, store.erase key)
    else (some value, store.moveToEnd key)

/-- mirrors retrieval/hyde/cache.py:80-90 -/
def put (c : HydeCache) (store : Store) (key value : Str) (now : ℚ) : Store :=
  (store.putLast key (now, value)).shrink c.maxEntries

end HydeCache

/-! ## Histories -/

inductive Op
  | put (key value : Str)
  | get (key : Str)
  | clear

/-- An operation that was done, and whether a `get` found its key. -/
inductive Done
  | put (time : ℚ) (key value : Str)
  | hit (key : Str)
  | miss (key : Str)
  | clear

/-- What was done is listed last to first. -/
structure State where
  store : Store := .empty
  history : List Done := []
  clock : ℚ

/-- One operation, with the time it reads; the clock does not go back. -/
def step (c : HydeCache) (s : State) (op : ℚ × Op) : Option State :=
  if op.1 < s.clock then none
  else match op.2 with
    | .put key value =>
      some ⟨c.put s.store key value op.1, .put op.1 key value :: s.history, op.1⟩
    | .get key =>
      match c.get s.store key op.1 with
      | (some _, store) => some ⟨store, .hit key :: s.history, op.1⟩
      | (none, store) => some ⟨store, .miss key :: s.history, op.1⟩
    | .clear => some ⟨.empty, .clear :: s.history, op.1⟩

/-- The key that was put or successfully read. -/
def Done.touched : Done → Option Str
  | .put _ key _ => some key
  | .hit key => some key
  | _ => none

/-- The keys put or successfully read, last to first. -/
def touches (history : List Done) : List Str := history.filterMap Done.touched

/-- The time and the value of the most recent put of a key. -/
def lastPut (key : Str) : List Done → Option (ℚ × Str)
  | [] => none
  | .put time key' value :: history =>
    if key' = key then some (time, value) else lastPut key history
  | _ :: history => lastPut key history

/-- The cache was cleared since the most recent put of a key. -/
def clearedSincePut (key : Str) : List Done → Prop
  | [] => False
  | .put _ key' _ :: history => key' ≠ key ∧ clearedSincePut key history
  | .clear :: _ => True
  | _ :: history => clearedSincePut key history

/-- The reasons for which the entry of a key, put at `time`, may be gone. -/
def Gone (c : HydeCache) (history : List Done) (key : Str) (time now : ℚ) : Prop :=
  c.ttl < now - time ∨ clearedSincePut key history ∨
    c.maxEntries ≤ (since (touches history) key).card

/-- What the dictionary says about the history. -/
structure Inv (c : HydeCache) (s : State) : Prop where
  length_le : s.store.length ≤ c.maxEntries
  inOrder : InOrder (touches s.history) s.store
  present : ∀ key entry, s.store.get key = some entry → lastPut key s.history = some entry
  absent : ∀ key entry, lastPut key s.history = some entry → s.store.get key = none →
    Gone c s.history key entry.1 s.clock

section
variable {c : HydeCache} {s : State} {key key' value : Str} {now time : ℚ}

theorem Gone.mono (h : Gone c s.history key time s.clock) (hnow : s.clock ≤ now) :
    Gone c s.history key time now := by
  refine h.imp_left fun hlate => ?_
  linarith

/-- A touch of another key. -/
theorem Gone.touch {history : List Done} {d : Done} (hd : d.touched = some key')
    (hne : key ≠ key') (hclear : clearedSincePut key history → clearedSincePut key (d :: history))
    (h : Gone c history key time now) : Gone c (d :: history) key time now := by
  refine h.imp_right (Or.imp hclear fun hcard => hcard.trans (Finset.card_le_card ?_))
  rw [touches, touches, List.filterMap_cons_some hd]
  exact since_subset_cons hne

theorem inv_init (c : HydeCache) (clock : ℚ) : Inv c { clock } :=
  ⟨Nat.zero_le _, InOrder.empty, nofun, nofun⟩

/-! ## The operations -/

variable {storedAt : ℚ}

theorem Inv.put (hi : Inv c s) (hnow : s.clock ≤ now) :
    Inv c ⟨c.put s.store key value now, .put now key value :: s.history, now⟩ := by
  refine ⟨OrderedDict.length_shrink_le _ _, ?_, ?_, ?_⟩
  · have hmoved : InOrder (key :: touches s.history) (s.store.putLast key (now, value)) :=
      hi.inOrder.putLast
    refine hmoved.sublist ?_
    rw [HydeCache.put, OrderedDict.items_shrink]
    exact List.drop_sublist _ _
  · intro key' entry hget
    have hput := OrderedDict.get_of_get_shrink hget
    rw [OrderedDict.get_putLast] at hput
    by_cases he : key' = key
    · rw [if_pos he] at hput
      rw [lastPut, if_pos he.symm, ← hput]
    · rw [if_neg he] at hput
      rw [lastPut, if_neg (Ne.symm he)]
      exact hi.present key' entry hput
  · intro key' entry hlast hnone
    by_cases he : key' = key
    · rw [he, HydeCache.put, OrderedDict.get_shrink_putLast c.maxEntries_pos] at hnone
      cases hnone
    · rw [lastPut, if_neg (Ne.symm he)] at hlast
      by_cases hold : s.store.get key' = none
      · have hgone := (hi.absent key' entry hlast hold).mono hnow
        exact hgone.touch rfl he fun hclear => ⟨Ne.symm he, hclear⟩
      · -- the key was there until this put made room for its own
        have hsome : ((s.store.putLast key (now, value)).get key').isSome := by
          rw [OrderedDict.get_putLast, if_neg he]
          exact Option.isSome_iff_ne_none.mpr hold
        exact .inr (.inr (hi.inOrder.putLast.le_card_since hsome hnone))

theorem Inv.hit (hi : Inv c s) (hnow : s.clock ≤ now) {entry : ℚ × Str}
    (hget : s.store.get key = some entry) :
    Inv c ⟨s.store.moveToEnd key, .hit key :: s.history, now⟩ := by
  refine ⟨OrderedDict.length_moveToEnd_le.trans hi.length_le, ?_, ?_, ?_⟩
  · dsimp only
    rw [OrderedDict.moveToEnd, hget]
    exact hi.inOrder.putLast
  · intro key' entry' hget'
    exact hi.present key' entry' (OrderedDict.get_moveToEnd.symm.trans hget')
  · intro key' entry' hlast hnone
    have hnone : s.store.get key' = none := OrderedDict.get_moveToEnd.symm.trans hnone
    have hne : key' ≠ key := fun he => by
      rw [he, hget] at hnone
      cases hnone
    exact ((hi.absent key' entry' hlast hnone).mono hnow).touch rfl hne id

/-- An entry that is too old goes, and stays too old. -/
theorem Inv.expired (hi : Inv c s) (hnow : s.clock ≤ now)
    (hget : s.store.get key = some (storedAt, value)) (hlate : c.ttl < now - storedAt) :
    Inv c ⟨s.store.erase key, .miss key :: s.history, now⟩ := by
  refine ⟨(List.length_filter_le _ _).trans hi.length_le, hi.inOrder.sublist List.filter_sublist,
    ?_, ?_⟩
  · intro key' entry hget'
    rw [OrderedDict.get_erase] at hget'
    split at hget'
    · cases hget'
    · exact hi.present key' entry hget'
  · intro key' entry hlast hnone
    by_cases he : key' = key
    · have hput := (hi.present key _ hget).symm.trans (he ▸ hlast)
      cases hput
      exact .inl hlate
    · dsimp only at hnone
      rw [OrderedDict.get_erase, if_neg he] at hnone
      exact (hi.absent key' entry hlast hnone).mono hnow

theorem Inv.miss (hi : Inv c s) (hnow : s.clock ≤ now) :
    Inv c ⟨s.store, .miss key :: s.history, now⟩ :=
  ⟨hi.length_le, hi.inOrder, hi.present, fun key' entry hlast hnone =>
    (hi.absent key' entry hlast hnone).mono hnow⟩

theorem Inv.clear (c : HydeCache) (history : List Done) (now : ℚ) :
    Inv c ⟨.empty, .clear :: history, now⟩ :=
  ⟨Nat.zero_le _, InOrder.empty, nofun, fun _ _ _ _ => .inr (.inl trivial)⟩

/-- **One operation.** -/
theorem step_inv {s' : State} {op : ℚ × Op} (hi : Inv c s) (h : step c s op = some s') :
    Inv c s' := by
  unfold step at h
  split at h
  · cases h
  rename_i hnow
  have hnow := not_lt.mp hnow
  split at h
  · cases h
    exact hi.put hnow
  · rename_i key hop
    unfold HydeCache.get at h
    cases hget : s.store.get key with
    | none =>
      simp only [hget] at h
      cases h
      exact hi.miss hnow
    | some entry =>
      obtain ⟨storedAt, value⟩ := entry
      simp only [hget] at h
      by_cases hlate : c.ttl < op.1 - storedAt
      · rw [if_pos hlate] at h
        cases h
        exact hi.expired hnow hget hlate
      · rw [if_neg hlate] at h
        cases h
        exact hi.hit hnow hget
  · cases h
    exact Inv.clear c s.history op.1

end

/-- **The cache.** Behind every history there are at most `max_entries` entries; a `get` returns the
value of the most recent put of its key, made at most `ttl` ago; and where there was such a put, a
`get` finds nothing only for one of the three reasons. -/
theorem hyde_cache_spec (c : HydeCache) (clock : ℚ) (ops : List (ℚ × Op)) (s : State)
    (h : exec (step c) { clock } ops = some s) :
    s.store.length ≤ c.maxEntries ∧
    ∀ key now, s.clock ≤ now →
      (∀ value, (c.get s.store key now).1 = some value →
        ∃ time, lastPut key s.history = some (time, value) ∧ now - time ≤ c.ttl) ∧
      ((c.get s.store key now).1 = none → ∀ time value,
        lastPut key s.history = some (time, value) →
          c.ttl < now - time ∨ clearedSincePut key s.history ∨
            c.maxEntries ≤ (since (touches s.history) key).card) := by
  have hi : Inv c s := exec_invariant (fun _ _ _ hi _ hs => step_inv hi hs) (inv_init c clock)
    (guarded_of_forall fun _ _ _ => trivial) h
  refine ⟨hi.length_le, fun key now hnow => ?_⟩
  unfold HydeCache.get
  cases hget : s.store.get key with
  | none => exact ⟨nofun, fun _ time value hlast => (hi.absent key _ hlast hget).mono hnow⟩
  | some entry =>
    obtain ⟨storedAt, value⟩ := entry
    have hlast := hi.present key _ hget
    by_cases hlate : c.ttl < now - storedAt
    · simp only [if_pos hlate]
      refine ⟨nofun, fun _ time value' hlast' => .inl ?_⟩
      cases hlast.symm.trans hlast'
      exact hlate
    · simp only [if_neg hlate]
      refine ⟨fun value' hv => ⟨storedAt, ?_, not_lt.mp hlate⟩, nofun⟩
      cases hv
      exact hlast

/-- A cache of one entry, for ten minutes. -/
def oneEntry : HydeCache :=
  { ttl := 600, maxEntries := 1, ttl_pos := by decide, maxEntries_pos := Nat.one_pos }

/-- The entry of `a` made room for `b`. -/
theorem hyde_cache_spec_evicted : ∃ s,
    exec (step oneEntry) { clock := 0 } [(0, .put "a" "x"), (1, .get "a"), (2, .put "b" "y")] =
        some s ∧
      s.store.length ≤ 1 ∧ (oneEntry.get s.store "a" 3).1 = none ∧
      (600 < (3 - 0 : ℚ) ∨ clearedSincePut "a" s.history ∨
        1 ≤ (since (touches s.history) "a".toList).card) := by
  have hrun : (exec (step oneEntry) { clock := 0 }
      [(0, .put "a" "x"), (1, .get "a"), (2, .put "b" "y")]).map (fun s =>
        (s.clock, (oneEntry.get s.store "a" 3).1, lastPut "a" s.history)) =
      some (2, none, some (0, "x".toList)) := by
    decide +kernel
  obtain ⟨s, hs, he⟩ := Option.map_eq_some_iff.mp hrun
  obtain ⟨hclock, hnone, hlast⟩ := Prod.ext_iff.mp he |>.imp_right Prod.ext_iff.mp
  have hspec := hyde_cache_spec oneEntry 0 _ s hs
  have hle : s.clock ≤ 3 := by
    rw [show s.clock = 2 from hclock]
    decide
  exact ⟨s, hs, hspec.1, hnone, (hspec.2 "a" 3 hle).2 hnone 0 "x" hlast⟩

end KnowledgeKiln.L2.Hyde
