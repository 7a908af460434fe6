import KnowledgeKiln.Core.Py

/-!
# Database sessions

A session works in transactions. What a transaction wrote is durable with its
commit, and gone if it is never committed. A statement the database refuses
aborts the transaction: every later statement of it fails, whether or not the
exception was caught.

`Txn σ α` is a call that works on a session over states `σ` and may raise. What
it committed before it raised stays committed.

* `Txn.bind_of_ok`, `Txn.bind_of_error`: a `do` block taken apart.
* `Txn.Keeps`: an invariant of sessions, and the rules it composes by.
-/
namespace KnowledgeKiln.Core

inductive Raised
  | exception (exc : PyExc)
  /-- `asyncio.CancelledError`, which is no `Exception`. -/
  | cancelled
  deriving DecidableEq, Repr

structure Session (σ : Type) where
  working : σ
  durable : σ
  /-- The states that were made durable, in order. -/
  commits : List σ := []
  aborted : Bool := false

/-- A session that has just been opened. -/
def Session.begin {σ : Type} (db : σ) : Session σ := { working := db, durable := db }

def Txn (σ α : Type) := Session σ → Except Raised α × Session σ

namespace Txn

variable {σ α β : Type}

def bind (x : Txn σ α) (f : α → Txn σ β) : Txn σ β := fun s =>
  match x s with
  | (.ok a, s') => f a s'
  | (.error e, s') => (.error e, s')

instance monad : Monad (Txn σ) where
  pure a := fun s => (.ok a, s)
  bind := bind

def raise (e : Raised) : Txn σ α := fun s => (.error e, s)

/-- A `SELECT`. -/
def query (f : σ → α) : Txn σ α := fun s => (.ok (f s.working), s)

/-- A statement that writes, or is refused. -/
def execute (f : σ → Py (α × σ)) : Txn σ α := fun s =>
  if s.aborted then (.error (.exception .dataError), s)
  else
    match f s.working with
    | .ok (a, db) => (.ok a, { s with working := db })
    | .error exc => (.error (.exception exc), { s with aborted := true })

def commit : Txn σ Unit := fun s =>
  if s.aborted then (.error (.exception .dataError), s)
  else (.ok (), { s with durable := s.working, commits := s.commits ++ [s.working] })

/-- `try`: what the call raised becomes its value. -/
def attempt (x : Txn σ α) : Txn σ (Except Raised α) := fun s => (.ok (x s).1, (x s).2)

/-! ## Taking a call apart -/

variable {s s' : Session σ} {x : Txn σ α} {f : α → Txn σ β}

@[simp] theorem pure_apply (a : α) (s : Session σ) : (pure a : Txn σ α) s = (.ok a, s) := rfl

@[simp] theorem raise_apply (e : Raised) (s : Session σ) :
    (raise e : Txn σ α) s = (.error e, s) := rfl

@[simp] theorem query_apply (f : σ → α) (s : Session σ) : query f s = (.ok (f s.working), s) := rfl

theorem bind_of_ok {a : α} (h : x s = (.ok a, s')) : (x >>= f) s = f a s' := by
  change Txn.bind x f s = _
  rw [Txn.bind, h]

theorem bind_of_error {e : Raised} (h : x s = (.error e, s')) :
    (x >>= f) s = (.error e, s') := by
  change Txn.bind x f s = _
  rw [Txn.bind, h]

theorem execute_of_ok {f : σ → Py (α × σ)} {a : α} {db : σ} (hs : s.aborted = false)
    (h : f s.working = .ok (a, db)) : execute f s = (.ok a, { s with working := db }) := by
  simp [execute, hs, h]

theorem execute_of_error {f : σ → Py (α × σ)} {exc : PyExc} (hs : s.aborted = false)
    (h : f s.working = .error exc) :
    execute f s = (.error (.exception exc), { s with aborted := true }) := by
  simp [execute, hs, h]

theorem execute_of_aborted {f : σ → Py (α × σ)} (hs : s.aborted = true) :
    execute f s = (.error (.exception .dataError), s) := by
  simp [execute, hs]

theorem commit_of_ok (hs : s.aborted = false) :
    commit s = (.ok (), { s with durable := s.working, commits := s.commits ++ [s.working] }) := by
  simp [commit, hs]

/-- `try` around a call that goes through. -/
theorem attempt_of {r : Except Raised α} (h : x s = (r, s')) : attempt x s = (.ok r, s') := by
  simp [attempt, h]

/-! ## Invariants of sessions -/

/-- The call leaves a session with `I` in a session with `I`, however it ends. -/
def Keeps (I : Session σ → Prop) (x : Txn σ α) : Prop := ∀ s, I s → I (x s).2

variable {I : Session σ → Prop}

theorem keeps_pure (a : α) : Keeps I (pure a : Txn σ α) := fun _ h => h

theorem keeps_raise (e : Raised) : Keeps I (raise e : Txn σ α) := fun _ h => h

theorem keeps_query (f : σ → α) : Keeps I (query f) := fun _ h => h

theorem keeps_attempt (hx : Keeps I x) : Keeps I (attempt x) := fun s h => hx s h

theorem keeps_bind (hx : Keeps I x) (hf : ∀ a, Keeps I (f a)) : Keeps I (x >>= f) := by
  intro s h
  have hx := hx s h
  cases hr : x s with
  | mk r s' =>
    rw [hr] at hx
    cases r with
    | ok a =>
      rw [bind_of_ok hr]
      exact hf a s' hx
    | error e =>
      rw [bind_of_error hr]
      exact hx

theorem keeps_execute {f : σ → Py (α × σ)}
    (ha : ∀ s, I s → I { s with aborted := true })
    (hf : ∀ s a db, I s → f s.working = .ok (a, db) → I { s with working := db }) :
    Keeps I (execute f) := by
  intro s h
  unfold execute
  split
  · exact h
  · split
    · rename_i a db he
      exact hf s a db h he
    · exact ha s h

theorem keeps_commit
    (hc : ∀ s, I s → I { s with durable := s.working, commits := s.commits ++ [s.working] }) :
    Keeps I (commit : Txn σ Unit) := by
  intro s h
  unfold commit
  split
  · exact h
  · exact hc s h

end Txn

end KnowledgeKiln.Core
