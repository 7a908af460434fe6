import KnowledgeKiln.L4Api.RateLimit

/-!
# How long a denied client waits

`hit` and `retry_after` refill the bucket each on its own. A denial leaves the bucket with less
than a token and with the time of the denial, whatever the hits before it were, so the wait is
computed from exactly these two.

* `get_after_others`: the hits of the other keys leave the bucket alone, unless they evict it.
* `retryAfter_spec`: the seconds are enough, and one less is not.
* `retry_after_exact`: behind every history.
-/
namespace KnowledgeKiln.L4.RateLimit

open KnowledgeKiln.Core

namespace TokenBucketLimiter

variable {l : TokenBucketLimiter} {buckets : Buckets} {key : Str} {t u : ℚ} {bucket : Bucket ℚ}

/-- The buckets behind some hits. -/
def after (l : TokenBucketLimiter) (buckets : Buckets) (hits : List Hit) : Buckets :=
  hits.foldl (fun buckets h => (l.hit buckets h.key h.time).2) buckets

theorem after_append (l : TokenBucketLimiter) (buckets : Buckets) (hits hits' : List Hit) :
    l.after buckets (hits ++ hits') = l.after (l.after buckets hits) hits' :=
  List.foldl_append

/-- A key that is gone stays gone until its next hit. -/
theorem get_after_absent : ∀ {hits : List Hit} {buckets : Buckets},
    (∀ h ∈ hits, h.key ≠ key) → buckets.get key = none → (l.after buckets hits).get key = none
  | [], _, _, hb => hb
  | h :: hs, buckets, hne, hb => by
    have hrest : ∀ h' ∈ hs, h'.key ≠ key := fun h' hh' => hne h' (List.mem_cons_of_mem _ hh')
    show (l.after (l.hit buckets h.key h.time).2 hs).get key = none
    refine get_after_absent hrest ?_
    rcases get_hit_of_ne l buckets h.time (hne h List.mem_cons_self).symm with he | he
    · rw [he, hb]
    · exact he

/-- The other keys leave the bucket alone, unless they evict it. -/
theorem get_after_others : ∀ {hits : List Hit} {buckets : Buckets},
    (∀ h ∈ hits, h.key ≠ key) → ((l.after buckets hits).get key).isSome →
    (l.after buckets hits).get key = buckets.get key
  | [], _, _, _ => rfl
  | h :: hs, buckets, hne, hsome => by
    have hrest : ∀ h' ∈ hs, h'.key ≠ key := fun h' hh' => hne h' (List.mem_cons_of_mem _ hh')
    have ih := get_after_others hrest hsome
    rcases get_hit_of_ne l buckets h.time (hne h List.mem_cons_self).symm with he | he
    · exact ih.trans he
    · have hnone : (l.after (l.hit buckets h.key h.time).2 hs).get key = none :=
        get_after_absent hrest he
      change ((l.after (l.hit buckets h.key h.time).2 hs).get key).isSome at hsome
      rw [hnone] at hsome
      cases hsome

/-! ## The bucket of a denial -/

/-- A denial leaves less than a token, refilled at the time of the denial. -/
theorem get_of_denied (h : (l.hit buckets key t).1 = false) :
    ∃ tokens, tokens < 1 ∧ (l.hit buckets key t).2.get key = some ⟨tokens, t⟩ := by
  have hlt := not_le.mp (hit_allowed_iff.not.mp (Bool.eq_false_iff.mp h))
  refine ⟨_, hlt, ?_⟩
  rw [get_hit_self, Bucket.take, if_neg (not_le.mpr hlt)]

theorem hit_of_get (hb : buckets.get key = some bucket) :
    (l.hit buckets key u).1 = true ↔ 1 ≤ bucket.refilled (l.capacity : ℚ) l.refillPerSec u := by
  rw [hit_allowed_iff, current, hb, Option.getD_some]

theorem refilled_lt_one (hlt : bucket.tokens + (u - bucket.lastRefill) * l.refillPerSec < 1)
    (hle : bucket.lastRefill ≤ u) : bucket.refilled (l.capacity : ℚ) l.refillPerSec u < 1 := by
  rw [Bucket.refilled, max_eq_right (sub_nonneg.mpr hle)]
  exact (min_le_right _ _).trans_lt hlt

/-- More than a second is the deficit at the refill rate, rounded up. -/
theorem retryAfter_eq (hb : buckets.get key = some bucket)
    (h1 : 1 < l.retryAfter buckets key t) :
    (l.retryAfter buckets key t : ℤ) =
      ⌈(1 - bucket.refilled (l.capacity : ℚ) l.refillPerSec t) / l.refillPerSec⌉ := by
  have heq : l.retryAfter buckets key t =
      if 1 ≤ bucket.refilled (l.capacity : ℚ) l.refillPerSec t then 1
      else max 1 ⌈(1 - bucket.refilled (l.capacity : ℚ) l.refillPerSec t) / l.refillPerSec⌉.toNat := by
    simp only [retryAfter, hb]
    rfl
  rw [heq] at h1 ⊢
  split
  · rename_i hfull
    rw [if_pos hfull] at h1
    exact absurd h1 (lt_irrefl 1)
  · rename_i hfull
    rw [if_neg hfull] at h1
    omega

/-- The seconds are enough, and where they are more than one, one less is not. -/
theorem retryAfter_spec {tokens : ℚ} (hb : buckets.get key = some ⟨tokens, t⟩) (hlt : tokens < 1) :
    (l.hit buckets key (t + l.retryAfter buckets key t)).1 = true ∧
      (1 < l.retryAfter buckets key t →
        (l.hit buckets key (t + l.retryAfter buckets key t - 1)).1 = false) := by
  constructor
  · refine hit_retryAfter fun b hb' => ?_
    rw [hb] at hb'
    cases hb'
    exact le_rfl
  · intro h1
    have hrate := l.refillPerSec_pos
    have hr : (1 : ℚ) < l.retryAfter buckets key t := by exact_mod_cast h1
    have hnow : Bucket.refilled (l.capacity : ℚ) l.refillPerSec ⟨tokens, t⟩ t =
        tokens := by
      rw [Bucket.refilled, sub_self, max_self, zero_mul, add_zero]
      exact min_eq_right (hlt.le.trans l.one_le_capacity)
    have hceil := retryAfter_eq hb h1
    rw [hnow] at hceil
    -- a second less than the rounded wait is less than the wait
    have hshort : (l.retryAfter buckets key t : ℚ) - 1 < (1 - tokens) / l.refillPerSec := by
      have := Int.ceil_lt_add_one ((1 - tokens) / l.refillPerSec)
      rw [← hceil] at this
      push_cast at this
      linarith
    have hdeficit := (lt_div_iff₀ hrate).mp hshort
    rw [Bool.eq_false_iff, Ne, hit_of_get hb, not_le]
    refine refilled_lt_one ?_ (by dsimp only; linarith)
    dsimp only
    have hsum : (t + l.retryAfter buckets key t - 1 - t) * l.refillPerSec =
        ((l.retryAfter buckets key t : ℚ) - 1) * l.refillPerSec := by
      ring
    rw [hsum]
    linarith

theorem retryAfter_congr {buckets' : Buckets} (h : buckets'.get key = buckets.get key) :
    l.retryAfter buckets' key t = l.retryAfter buckets key t := by
  simp only [retryAfter, h]

end TokenBucketLimiter

open TokenBucketLimiter

/-- **`Retry-After` is exact.** The key is denied at `t`; then come hits of other keys that do not
evict its bucket, some of them before `retry_after` is asked. The hits may carry any times. -/
theorem retry_after_exact (l : TokenBucketLimiter) (before meanwhile waiting : List Hit) (key : Str)
    (t : ℚ) (hdenied : (l.hit (l.after .empty before) key t).1 = false)
    (hother : ∀ h ∈ meanwhile ++ waiting, h.key ≠ key)
    (hkept : ((l.after .empty (before ++ ⟨key, t⟩ :: (meanwhile ++ waiting))).get key).isSome) :
    let r := l.retryAfter (l.after .empty (before ++ ⟨key, t⟩ :: meanwhile)) key t
    let buckets := l.after .empty (before ++ ⟨key, t⟩ :: (meanwhile ++ waiting))
    (l.hit buckets key (t + r)).1 = true ∧
      (1 < r → (l.hit buckets key (t + r - 1)).1 = false) := by
  obtain ⟨tokens, hlt, hget⟩ := get_of_denied hdenied
  have hafter : ∀ hits, l.after .empty (before ++ ⟨key, t⟩ :: hits) =
      l.after (l.hit (l.after .empty before) key t).2 hits := fun hits => by
    rw [after_append]
    rfl
  simp only [hafter] at hkept ⊢
  have hall := get_after_others hother hkept
  have hmean : ((l.after (l.hit (l.after .empty before) key t).2 meanwhile).get key).isSome := by
    by_contra hnone
    rw [Bool.not_eq_true, Option.isSome_eq_false_iff, Option.isNone_iff_eq_none] at hnone
    rw [after_append, get_after_absent (fun h hh => hother h (List.mem_append_right _ hh)) hnone]
      at hkept
    cases hkept
  have hsome := get_after_others (fun h hh => hother h (List.mem_append_left _ hh)) hmean
  rw [retryAfter_congr (hsome.trans hall.symm)]
  exact retryAfter_spec (hall.trans hget) hlt

/-- One token in ten seconds. -/
def oneInTen : TokenBucketLimiter :=
  { oneASecond with windowSeconds := 10, window_pos := by decide }

/-- The second hit at 0 is told to wait ten seconds, and nine are not enough. -/
theorem retry_after_ten :
    let buckets := oneInTen.after .empty [⟨"ip", 0⟩, ⟨"ip", 0⟩, ⟨"proxy", 1⟩]
    (oneInTen.hit buckets "ip" 10).1 = true ∧ (oneInTen.hit buckets "ip" 9).1 = false := by
  have h := retry_after_exact oneInTen [⟨"ip", 0⟩] [] [⟨"proxy", 1⟩] "ip" 0 (by decide +kernel)
    (by decide) (by decide +kernel)
  have hr : oneInTen.retryAfter (oneInTen.after .empty [⟨"ip", 0⟩, ⟨"ip", 0⟩]) "ip" 0 = 10 := by
    decide +kernel
  simp only [List.singleton_append, List.nil_append, hr] at h
  refine ⟨?_, ?_⟩
  · have hallowed := h.1
    norm_num at hallowed
    exact hallowed
  · have hdenied := h.2 (by decide)
    norm_num at hdenied
    exact hdenied

end KnowledgeKiln.L4.RateLimit
