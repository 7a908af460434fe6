import Mathlib

/-!
# Token buckets

A bucket of at most `capacity` tokens that refills at a constant rate. Times and
tokens are elements of an ordered field. A bucket remembers when it was last
refilled; a take at an earlier time refills nothing, and sets that time back.

* `allowed_before`: what is allowed up to a time is paid for by the tokens there
  were and the refill since.
* `allowed_between`: the rate bound, for takes in the order of their times.
* `credited_disjoint`: no stretch of time is credited twice.
-/
namespace KnowledgeKiln.Core

structure Bucket (K : Type) where
  tokens : K
  lastRefill : K

namespace Bucket

variable {K : Type} [Field K] [LinearOrder K]

section
variable (capacity rate : K)

/-- The tokens at the time `t`. -/
def refilled (b : Bucket K) (t : K) : K :=
  min capacity (b.tokens + max 0 (t - b.lastRefill) * rate)

/-- One token, if there is one at the time `t`. -/
def take (b : Bucket K) (t : K) : Bool × Bucket K :=
  if 1 ≤ b.refilled capacity rate t then (true, ⟨b.refilled capacity rate t - 1, t⟩)
  else (false, ⟨b.refilled capacity rate t, t⟩)

/-- The times at which a token was taken. -/
def allowed (b : Bucket K) : List K → List K
  | [] => []
  | t :: ts =>
    if (b.take capacity rate t).1 then t :: allowed (b.take capacity rate t).2 ts
    else allowed (b.take capacity rate t).2 ts

/-- The stretches of time that refilled the bucket. -/
def credited (b : Bucket K) : List K → List (K × K)
  | [] => []
  | t :: ts =>
    if b.lastRefill < t then (b.lastRefill, t) :: credited (b.take capacity rate t).2 ts
    else credited (b.take capacity rate t).2 ts

end

variable {capacity rate : K} {b : Bucket K} {t : K} {ts : List K}

@[simp] theorem take_lastRefill : (b.take capacity rate t).2.lastRefill = t := by
  unfold take
  split <;> rfl

/-- A take costs a token. -/
theorem take_tokens (capacity rate : K) (b : Bucket K) (t : K) :
    (b.take capacity rate t).2.tokens +
    (if (b.take capacity rate t).1 then 1 else 0) = b.refilled capacity rate t := by
  unfold take
  split <;> simp

theorem allowed_sublist : ∀ {ts : List K} {b : Bucket K}, (b.allowed capacity rate ts).Sublist ts
  | [], _ => List.Sublist.refl _
  | t :: ts, b => by
    unfold allowed
    split
    · exact allowed_sublist.cons_cons t
    · exact allowed_sublist.cons t

theorem allowed_cons (p : K → Bool) : (b.allowed capacity rate (t :: ts)).countP p =
    ((b.take capacity rate t).2.allowed capacity rate ts).countP p +
      if (b.take capacity rate t).1 ∧ p t then 1 else 0 := by
  rw [allowed]
  by_cases h : (b.take capacity rate t).1 = true
  · by_cases hp : p t = true
    · simp [h, hp]
    · simp [h, hp]
  · simp [h]

/-- Takes in the order of their times are credited one stretch after the other. -/
theorem credited_disjoint : ∀ {ts : List K} {b : Bucket K},
    (b.lastRefill :: ts).Pairwise (· ≤ ·) →
    (∀ p ∈ b.credited capacity rate ts, b.lastRefill ≤ p.1) ∧
      (b.credited capacity rate ts).Pairwise fun p q => p.2 ≤ q.1
  | [], _, _ => ⟨nofun, List.Pairwise.nil⟩
  | t :: ts, b, hs => by
    obtain ⟨hle, hs⟩ := List.pairwise_cons.mp hs
    have hbt : b.lastRefill ≤ t := hle t List.mem_cons_self
    obtain ⟨hlater, hdisjoint⟩ := credited_disjoint (b := (b.take capacity rate t).2)
      (by rwa [take_lastRefill])
    rw [take_lastRefill] at hlater
    unfold credited
    split
    · refine ⟨fun p hp => ?_, List.pairwise_cons.mpr ⟨hlater, hdisjoint⟩⟩
      rcases List.mem_cons.mp hp with rfl | hp
      · exact le_rfl
      · exact hbt.trans (hlater p hp)
    · exact ⟨fun p hp => hbt.trans (hlater p hp), hdisjoint⟩

variable [IsStrictOrderedRing K]

theorem refilled_nonneg (hc : 0 ≤ capacity) (hr : 0 ≤ rate) (hb : 0 ≤ b.tokens) :
    0 ≤ b.refilled capacity rate t := by
  have : 0 ≤ max 0 (t - b.lastRefill) * rate := mul_nonneg (le_max_left _ _) hr
  exact le_min hc (by linarith)

theorem take_nonneg (hc : 0 ≤ capacity) (hr : 0 ≤ rate) (hb : 0 ≤ b.tokens) :
    0 ≤ (b.take capacity rate t).2.tokens := by
  unfold take
  split
  · rename_i h
    exact sub_nonneg.mpr h
  · exact refilled_nonneg hc hr hb

theorem refilled_le (capacity rate : K) (h : b.lastRefill ≤ t) :
    b.refilled capacity rate t ≤ b.tokens + (t - b.lastRefill) * rate := by
  unfold refilled
  rw [max_eq_right (sub_nonneg.mpr h)]
  exact min_le_right _ _

/-- **Payment.** What is allowed up to the time `e` is paid for by the tokens of the bucket and
its refill. -/
theorem allowed_before {e : K} (hc : 0 ≤ capacity) (hr : 0 ≤ rate) :
    ∀ {ts : List K} {b : Bucket K}, 0 ≤ b.tokens → (b.lastRefill :: ts).Pairwise (· ≤ ·) →
      b.lastRefill ≤ e → (((b.allowed capacity rate ts).countP fun t => t ≤ e : Nat) : K) ≤
        b.tokens + (e - b.lastRefill) * rate
  | [], b, hb, _, he => by
    have := mul_nonneg (sub_nonneg.mpr he) hr
    simp only [allowed, List.countP_nil, Nat.cast_zero]
    linarith
  | t :: ts, b, hb, hs, he => by
    obtain ⟨hle, hs⟩ := List.pairwise_cons.mp hs
    have hbt : b.lastRefill ≤ t := hle t List.mem_cons_self
    rw [allowed_cons]
    by_cases hte : t ≤ e
    · have ih := allowed_before (e := e) hc hr (take_nonneg (t := t) hc hr hb)
        (by rwa [take_lastRefill]) (by rwa [take_lastRefill])
      have hcost := take_tokens capacity rate b t
      have hfill := refilled_le capacity rate hbt
      rw [take_lastRefill] at ih
      have hsplit : (e - b.lastRefill) * rate = (e - t) * rate + (t - b.lastRefill) * rate := by
        ring
      push_cast
      simp only [hte, decide_true, and_true]
      linarith
    · -- the times only grow, so nothing more is counted
      have hnone : ((b.take capacity rate t).2.allowed capacity rate ts).countP
          (fun t => decide (t ≤ e)) = 0 := by
        rw [List.countP_eq_zero]
        intro u hu
        have htu := (List.pairwise_cons.mp hs).1 u (allowed_sublist.subset hu)
        simp only [decide_eq_true_eq]
        exact fun h => hte (htu.trans h)
      have := mul_nonneg (sub_nonneg.mpr he) hr
      rw [hnone]
      simp only [hte, decide_false]
      simp only [Bool.false_eq_true, and_false, if_false, add_zero, Nat.cast_zero]
      linarith

/-- **The rate bound.** In any interval, at most the capacity and the refill of that interval. -/
theorem allowed_between {a e : K} (hc : 0 ≤ capacity) (hr : 0 ≤ rate) (hae : a ≤ e) :
    ∀ (ts : List K) (b : Bucket K), 0 ≤ b.tokens → ts.Pairwise (· ≤ ·) →
      (((b.allowed capacity rate ts).countP fun t => a ≤ t ∧ t ≤ e : Nat) : K) ≤
        capacity + (e - a) * rate
  | [], _, _, _ => by
    have := mul_nonneg (sub_nonneg.mpr hae) hr
    simp only [allowed, List.countP_nil, Nat.cast_zero]
    linarith
  | t :: ts, b, hb, hs => by
    obtain ⟨hle, hs'⟩ := List.pairwise_cons.mp hs
    by_cases hat : a ≤ t
    · by_cases hte : t ≤ e
      · -- the first take of the interval: from here on the bucket pays, and it is at most full
        have hpay := allowed_before (e := e) hc hr (take_nonneg (t := t) hc hr hb)
          (by rwa [take_lastRefill]) (by rwa [take_lastRefill])
        have hcost := take_tokens capacity rate b t
        have hfull : b.refilled capacity rate t ≤ capacity := min_le_left _ _
        have hlate : (e - t) * rate ≤ (e - a) * rate :=
          mul_le_mul_of_nonneg_right (by linarith) hr
        have hsame : ((b.take capacity rate t).2.allowed capacity rate ts).countP
            (fun u => decide (a ≤ u ∧ u ≤ e)) =
            ((b.take capacity rate t).2.allowed capacity rate ts).countP
              (fun u => decide (u ≤ e)) := by
          refine List.countP_congr fun u hu => ?_
          have htu := hle u (allowed_sublist.subset hu)
          simp only [decide_eq_true_eq, and_iff_right_iff_imp]
          exact fun _ => hat.trans htu
        rw [allowed_cons, hsame]
        rw [take_lastRefill] at hpay
        push_cast
        simp only [hat, hte, and_self, decide_true, and_true]
        linarith
      · have hnone : (b.allowed capacity rate (t :: ts)).countP
            (fun u => decide (a ≤ u ∧ u ≤ e)) = 0 := by
          rw [List.countP_eq_zero]
          intro u hu
          have htu : t ≤ u := by
            rcases List.mem_cons.mp (allowed_sublist.subset hu) with rfl | h
            · exact le_rfl
            · exact hle u h
          simp only [decide_eq_true_eq]
          exact fun h => hte (htu.trans h.2)
        have := mul_nonneg (sub_nonneg.mpr hae) hr
        rw [hnone, Nat.cast_zero]
        linarith
    · have ih := allowed_between hc hr hae ts _ (take_nonneg (t := t) hc hr hb) hs'
      rw [allowed_cons]
      simpa [hat] using ih

end Bucket

end KnowledgeKiln.Core
