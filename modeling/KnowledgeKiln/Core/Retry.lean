import Mathlib

/-!
# Bounded retries

A request is made again while it fails in a way that may pass, up to a number of times. `respond`
says how the attempts end; nothing is assumed of it.

* `run_eq`: an attempt that ends the loop, after attempts that do not, gives the result.
* `run_ok_iff`: the result is that of the first attempt that does not fail in passing.
-/
namespace KnowledgeKiln.Core.Retry

/-- How an attempt ends; the error is what is raised if it is the last one. -/
inductive Outcome (α ε : Type)
  | done (a : α)
  | transient (e : ε)
  | fatal (e : ε)

section
variable {α ε : Type}

/-- The attempt of the given number, and what follows it when so many more may be made; also how
many attempts this is. -/
def run (respond : Nat → Outcome α ε) : Nat → Nat → Except ε α × Nat
  | attempt, 0 =>
    match respond attempt with
    | .done a => (.ok a, 1)
    | .transient e | .fatal e => (.error e, 1)
  | attempt, left + 1 =>
    match respond attempt with
    | .done a => (.ok a, 1)
    | .fatal e => (.error e, 1)
    | .transient _ =>
      let out := run respond (attempt + 1) left
      (out.1, out.2 + 1)

def Outcome.isTransient : Outcome α ε → Bool
  | .transient _ => true
  | .done _ | .fatal _ => false

/-- The attempt ends the loop with this result, when `left` more could follow. -/
def Decides (outcome : Outcome α ε) (left : Nat) (result : Except ε α) : Prop :=
  match outcome with
  | .done a => result = .ok a
  | .fatal e => result = .error e
  | .transient e => left = 0 ∧ result = .error e

variable {respond : Nat → Outcome α ε}

theorem run_of_decides : ∀ {left attempt : Nat} {result : Except ε α},
    Decides (respond attempt) left result → run respond attempt left = (result, 1)
  | 0, attempt, result, h => by
    unfold run
    cases hr : respond attempt <;> simp_all [Decides]
  | left + 1, attempt, result, h => by
    unfold run
    cases hr : respond attempt <;> simp_all [Decides]

/-- **The loop.** The attempts before the `k`-th fail in passing, and that one decides. -/
theorem run_eq {result : Except ε α} : ∀ {k left attempt : Nat}, k ≤ left →
    (∀ i < k, (respond (attempt + i)).isTransient = true) →
    Decides (respond (attempt + k)) (left - k) result →
    run respond attempt left = (result, k + 1)
  | 0, left, attempt, _, _, h => run_of_decides h
  | k + 1, 0, _, hk, _, _ => absurd hk (Nat.not_succ_le_zero k)
  | k + 1, left + 1, attempt, hk, hbefore, h => by
    have hfirst := hbefore 0 (Nat.succ_pos k)
    have hrest : run respond (attempt + 1) left = (result, k + 1) := by
      refine run_eq (Nat.le_of_succ_le_succ hk) (fun i hi => ?_) ?_
      · rw [show attempt + 1 + i = attempt + (i + 1) by omega]
        exact hbefore (i + 1) (by omega)
      · rw [show attempt + 1 + k = attempt + (k + 1) by omega]
        rwa [Nat.succ_sub_succ] at h
    unfold run
    rw [Nat.add_zero] at hfirst
    cases hr : respond attempt with
    | transient e => simp only [hrest]
    | done a => simp [hr, Outcome.isTransient] at hfirst
    | fatal e => simp [hr, Outcome.isTransient] at hfirst

/-- Some attempt decides. -/
theorem exists_decides (respond : Nat → Outcome α ε) : ∀ left attempt : Nat, ∃ k ≤ left,
    (∀ i < k, (respond (attempt + i)).isTransient = true) ∧
    ∃ result, Decides (respond (attempt + k)) (left - k) result
  | left, attempt => by
    cases hr : respond attempt with
    | done a => exact ⟨0, Nat.zero_le _, nofun, .ok a, by simp [hr, Decides]⟩
    | fatal e => exact ⟨0, Nat.zero_le _, nofun, .error e, by simp [hr, Decides]⟩
    | transient e =>
      cases left with
      | zero => exact ⟨0, le_refl _, nofun, .error e, by simp [hr, Decides]⟩
      | succ left =>
        obtain ⟨k, hk, hbefore, result, h⟩ := exists_decides respond left (attempt + 1)
        refine ⟨k + 1, Nat.succ_le_succ hk, fun i hi => ?_, result, ?_⟩
        · cases i with
          | zero =>
            rw [Nat.add_zero, hr]
            rfl
          | succ i =>
            rw [show attempt + (i + 1) = attempt + 1 + i by omega]
            exact hbefore i (by omega)
        · rw [show attempt + (k + 1) = attempt + 1 + k by omega, Nat.succ_sub_succ]
          exact h

/-- **The result** is that of the first attempt that does not fail in passing. -/
theorem run_ok_iff {attempt left : Nat} {a : α} : (run respond attempt left).1 = .ok a ↔
    ∃ k ≤ left, (∀ i < k, (respond (attempt + i)).isTransient = true) ∧
      respond (attempt + k) = .done a := by
  constructor
  · intro h
    obtain ⟨k, hk, hbefore, result, hdecides⟩ := exists_decides respond left attempt
    rw [run_eq hk hbefore hdecides] at h
    subst h
    refine ⟨k, hk, hbefore, ?_⟩
    cases hr : respond (attempt + k) <;> simp_all [Decides]
  · intro ⟨k, hk, hbefore, hdone⟩
    have hdecides : Decides (respond (attempt + k)) (left - k) (.ok a) := by
      rw [hdone]
      rfl
    rw [run_eq hk hbefore hdecides]

end

end KnowledgeKiln.Core.Retry
