import Mathlib

/-!
# Runs

A run is a finite list of events, each of which the system admits after the
events before it. A system is its admission relation `adm`, so that what an
event may do can depend on the whole history.

A system given by a step function on states runs by `exec`.

* `Run.split`: every event of a run was admitted after the events before it,
  which form a run themselves.
* `exec_invariant`: what a step keeps, a run keeps, as long as its steps meet a guard.
-/
namespace KnowledgeKiln.Core

variable {ε : Type} {adm : List ε → ε → Prop}

inductive Run (adm : List ε → ε → Prop) : List ε → Prop
  | nil : Run adm []
  | snoc {es : List ε} {e : ε} (run : Run adm es) (admitted : adm es e) : Run adm (es ++ [e])

theorem Run.split {es rest : List ε} {e : ε} (h : Run adm (es ++ e :: rest)) :
    Run adm es ∧ adm es e := by
  generalize hl : es ++ e :: rest = l at h
  induction h generalizing rest with
  | nil => simp at hl
  | @snoc l' e' run admitted ih =>
    rcases List.eq_nil_or_concat rest with rfl | ⟨rest, x, rfl⟩
    · obtain ⟨rfl, he⟩ := List.append_inj' hl rfl
      cases he
      exact ⟨run, admitted⟩
    · rw [List.concat_eq_append, ← List.cons_append, ← List.append_assoc] at hl
      exact ih (List.append_inj' hl rfl).1

/-! ## Step functions -/

section
variable {σ : Type} {step : σ → ε → Option σ}

/-- The state behind a list of steps, if each of them was possible. -/
def exec (step : σ → ε → Option σ) (s : σ) : List ε → Option σ
  | [] => some s
  | e :: es => (step s e).bind fun s' => exec step s' es

theorem exec_cons {s s' : σ} {e : ε} {es : List ε} :
    exec step s (e :: es) = some s' ↔ ∃ t, step s e = some t ∧ exec step t es = some s' :=
  Option.bind_eq_some_iff

theorem exec_append : ∀ {es es' : List ε} {s s' : σ},
    exec step s (es ++ es') = some s' ↔ ∃ t, exec step s es = some t ∧ exec step t es' = some s'
  | [], es', s, s' => by simp [exec]
  | e :: es, es', s, s' => by
    simp only [List.cons_append, exec_cons, exec_append]
    constructor
    · rintro ⟨t, ht, u, hu, h⟩
      exact ⟨u, ⟨t, ht, hu⟩, h⟩
    · rintro ⟨u, ⟨t, ht, hu⟩, h⟩
      exact ⟨t, ht, u, hu, h⟩

/-- Each step meets the guard in the state it is taken in. -/
def Guarded (step : σ → ε → Option σ) (guard : σ → ε → Prop) (s : σ) : List ε → Prop
  | [] => True
  | e :: es => guard s e ∧ ∀ s', step s e = some s' → Guarded step guard s' es

variable {guard : σ → ε → Prop}

theorem Guarded.mono {guard' : σ → ε → Prop} (h : ∀ s e, guard s e → guard' s e) :
    ∀ {es : List ε} {s : σ}, Guarded step guard s es → Guarded step guard' s es
  | [], _, _ => trivial
  | _ :: _, _, hg => ⟨h _ _ hg.1, fun s' hs => Guarded.mono h (hg.2 s' hs)⟩

theorem Guarded.cons {s t : σ} {e : ε} {es : List ε} (he : guard s e) (hs : step s e = some t)
    (h : Guarded step guard t es) : Guarded step guard s (e :: es) := by
  refine ⟨he, fun s' hs' => ?_⟩
  rw [hs] at hs'
  cases hs'
  exact h

theorem guarded_of_forall : ∀ {es : List ε} {s : σ}, (∀ s, ∀ e ∈ es, guard s e) →
    Guarded step guard s es
  | [], _, _ => trivial
  | _ :: _, s, h =>
    ⟨h s _ List.mem_cons_self,
      fun _ _ => guarded_of_forall fun s e he => h s e (List.mem_cons_of_mem _ he)⟩

theorem guarded_append : ∀ {es es' : List ε} {s : σ}, Guarded step guard s (es ++ es') ↔
    Guarded step guard s es ∧ ∀ t, exec step s es = some t → Guarded step guard t es'
  | [], es', s => by simp [Guarded, exec]
  | e :: es, es', s => by
    simp only [List.cons_append, Guarded, guarded_append, exec_cons]
    constructor
    · intro ⟨he, h⟩
      exact ⟨⟨he, fun s' hs => (h s' hs).1⟩, fun t ⟨s', hs, ht⟩ => (h s' hs).2 t ht⟩
    · intro ⟨⟨he, h⟩, h'⟩
      exact ⟨he, fun s' hs => ⟨h s' hs, fun t ht => h' t ⟨s', hs, ht⟩⟩⟩

/-- **Invariants.** What every guarded step keeps holds behind every guarded run. -/
theorem exec_invariant {I : σ → Prop}
    (hstep : ∀ s e s', I s → guard s e → step s e = some s' → I s') :
    ∀ {es : List ε} {s s' : σ}, I s → Guarded step guard s es → exec step s es = some s' → I s'
  | [], s, s', hi, _, h => by
    cases h
    exact hi
  | e :: es, s, s', hi, hg, h => by
    obtain ⟨t, ht, h⟩ := exec_cons.mp h
    exact exec_invariant hstep (hstep s e t hi hg.1 ht) (hg.2 t ht) h

end

end KnowledgeKiln.Core
