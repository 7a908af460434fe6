import KnowledgeKiln.Core.OrderedDict
import KnowledgeKiln.Core.Run
import KnowledgeKiln.Core.TokenBucket

/-!
# The rate limiter

`TokenBucketLimiter` of `api/rate_limit.py`, in exact arithmetic: one token
bucket for each key, the oldest of which is evicted when there are too many. A
thread reads the clock before it takes the lock, so the hits come in the order
of the lock with times in any order.

* `get_hit_self`, `get_hit_of_ne`: a hit is a take from the bucket of its key,
  and touches no other, unless it evicts it.
* `rate_bound`: as long as no hit of a key carries a time before the last refill
  of its bucket, every interval sees at most the capacity and its refill.
* `hit_retryAfter`: who waits as long as a denial says is let through.
-/
namespace KnowledgeKiln.L4.RateLimit

open KnowledgeKiln.Core

structure TokenBucketLimiter where
  capacity : Nat
  windowSeconds : ℚ
  /-- `_MAX_BUCKETS` -/
  maxBuckets : Nat := 50000
  capacity_pos : 0 < capacity
  window_pos : 0 < windowSeconds
  maxBuckets_pos : 0 < maxBuckets

/-- The buckets, the least recently used first. -/
abbrev Buckets := OrderedDict Str (Bucket ℚ)

namespace TokenBucketLimiter

/-- `_refill_per_sec` -/
def refillPerSec (l : TokenBucketLimiter) : ℚ := l.capacity / l.windowSeconds

/-- The bucket of the key, and the buckets with this one in the last place. -/
def openBucket (l : TokenBucketLimiter) (buckets : Buckets) (key : Str) (t : ℚ) :
    Bucket ℚ × Buckets :=
  match buckets.get key with
  | none =>
    let bucket := ⟨l.capacity, t⟩
    let buckets := buckets.set key bucket
    (bucket, if l.maxBuckets < buckets.length then buckets.popFirst else buckets)
  | some bucket => (bucket, buckets.moveToEnd key)

/-- `hit` at the time `t`. -/
def hit (l : TokenBucketLimiter) (buckets : Buckets) (key : Str) (t : ℚ) : Bool × Buckets :=
  let (bucket, buckets) := l.openBucket buckets key t
  let elapsed := max 0 (t - bucket.lastRefill)
  let tokens := min (l.capacity : ℚ) (bucket.tokens + elapsed * l.refillPerSec)
  if 1 ≤ tokens then (true, buckets.set key ⟨tokens - 1, t⟩)
  else (false, buckets.set key ⟨tokens, t⟩)

/-- `retry_after` at the time `t`. -/
def retryAfter (l : TokenBucketLimiter) (buckets : Buckets) (key : Str) (t : ℚ) : Nat :=
  match buckets.get key with
  | none => 1
  | some bucket =>
    let elapsed := max 0 (t - bucket.lastRefill)
    let tokens := min (l.capacity : ℚ) (bucket.tokens + elapsed * l.refillPerSec)
    if 1 ≤ tokens then 1
    else max 1 ⌈(1 - tokens) / l.refillPerSec⌉.toNat

/-! ## One hit -/

variable {l : TokenBucketLimiter} {buckets : Buckets} {key key' : Str} {t : ℚ}

theorem refillPerSec_pos (l : TokenBucketLimiter) : 0 < l.refillPerSec :=
  div_pos (by exact_mod_cast l.capacity_pos) l.window_pos

/-- The bucket that a hit of the key takes from. -/
def current (l : TokenBucketLimiter) (buckets : Buckets) (key : Str) (t : ℚ) : Bucket ℚ :=
  (buckets.get key).getD ⟨l.capacity, t⟩

theorem openBucket_fst : (l.openBucket buckets key t).1 = l.current buckets key t := by
  unfold openBucket current
  split <;> simp_all

/-- A hit is a take from the bucket of its key. -/
theorem hit_eq : l.hit buckets key t =
    (((l.current buckets key t).take (l.capacity : ℚ) l.refillPerSec t).1,
      (l.openBucket buckets key t).2.set key
        ((l.current buckets key t).take (l.capacity : ℚ) l.refillPerSec t).2) := by
  rw [← openBucket_fst]
  simp only [hit, Bucket.take, Bucket.refilled]
  split
  · rename_i h
    simp [h]
  · rename_i h
    simp [h]

theorem get_hit_self (l : TokenBucketLimiter) (buckets : Buckets) (key : Str) (t : ℚ) :
    (l.hit buckets key t).2.get key =
    some ((l.current buckets key t).take (l.capacity : ℚ) l.refillPerSec t).2 := by
  rw [hit_eq, OrderedDict.get_set, if_pos rfl]

/-- Another key keeps its bucket, or loses it to the eviction. -/
theorem get_hit_of_ne (l : TokenBucketLimiter) (buckets : Buckets) (t : ℚ) (h : key' ≠ key) :
    (l.hit buckets key t).2.get key' = buckets.get key' ∨
    (l.hit buckets key t).2.get key' = none := by
  rw [hit_eq, OrderedDict.get_set, if_neg h]
  unfold openBucket
  split
  · dsimp only
    split
    · rcases OrderedDict.get_popFirst (d := buckets.set key ⟨l.capacity, t⟩) (k := key') with
        he | ⟨he, -⟩
      · rw [he, OrderedDict.get_set, if_neg h]
        exact .inl rfl
      · exact .inr he
    · rw [OrderedDict.get_set, if_neg h]
      exact .inl rfl
  · rw [OrderedDict.get_moveToEnd]
    exact .inl rfl

/-! ## Runs -/

structure Hit where
  key : Str
  time : ℚ

def step (l : TokenBucketLimiter) (buckets : Buckets) (h : Hit) : Option Buckets :=
  some (l.hit buckets h.key h.time).2

/-- The times of the hits of the key that were allowed. -/
def allowedTimes (l : TokenBucketLimiter) (key : Str) (buckets : Buckets) : List Hit → List ℚ
  | [] => []
  | h :: hs =>
    let (allowed, buckets') := l.hit buckets h.key h.time
    if h.key = key ∧ allowed then h.time :: allowedTimes l key buckets' hs
    else allowedTimes l key buckets' hs

/-- The stretches of time that were credited to the bucket of the key. -/
def creditedTimes (l : TokenBucketLimiter) (key : Str) (buckets : Buckets) : List Hit → List (ℚ × ℚ)
  | [] => []
  | h :: hs =>
    let lastRefill := (l.current buckets h.key h.time).lastRefill
    let buckets' := (l.hit buckets h.key h.time).2
    if h.key = key ∧ lastRefill < h.time then (lastRefill, h.time) :: creditedTimes l key buckets' hs
    else creditedTimes l key buckets' hs

/-- The hit does not evict the bucket of the key. -/
def Keeps (l : TokenBucketLimiter) (key : Str) (buckets : Buckets) (h : Hit) : Prop :=
  (buckets.get key).isSome → ((l.hit buckets h.key h.time).2.get key).isSome

/-- A hit of the key does not carry a time before the last refill of its bucket. -/
def InOrder (key : Str) (buckets : Buckets) (h : Hit) : Prop :=
  h.key = key → ∀ bucket, buckets.get key = some bucket → bucket.lastRefill ≤ h.time

/-- At most the capacity and the refill of the interval are allowed in any interval, and no
stretch of time is credited twice. -/
def RateBounded (l : TokenBucketLimiter) (key : Str) (hits : List Hit) : Prop :=
  (∀ a e, a ≤ e → ((l.allowedTimes key .empty hits).countP fun t => a ≤ t ∧ t ≤ e) ≤
    (l.capacity + (e - a) * l.capacity / l.windowSeconds : ℚ)) ∧
  (l.creditedTimes key .empty hits).Pairwise fun p q => p.2 ≤ q.1 ∨ q.2 ≤ p.1

/-- The times of the hits of the key. -/
def times (key : Str) (hits : List Hit) : List ℚ :=
  (hits.filter fun h => decide (h.key = key)).map Hit.time

theorem keeps_self {h : Hit} (he : h.key = key) : l.Keeps key buckets h := by
  intro _
  rw [← he, get_hit_self]
  rfl

theorem get_keeps {h : Hit} {bucket : Bucket ℚ} (hk : l.Keeps key buckets h) (hne : h.key ≠ key)
    (hb : buckets.get key = some bucket) :
    (l.hit buckets h.key h.time).2.get key = some bucket := by
  rcases get_hit_of_ne l buckets h.time (Ne.symm hne) with he | he
  · rw [he, hb]
  · have := hk (by rw [hb]; rfl)
    rw [he] at this
    cases this

/-- The run treats the key as a bucket that sees the hits of the key, and nothing else. -/
structure Sees (l : TokenBucketLimiter) (key : Str) (buckets : Buckets) (bucket : Bucket ℚ)
    (hits : List Hit) : Prop where
  allowed : l.allowedTimes key buckets hits =
    bucket.allowed (l.capacity : ℚ) l.refillPerSec (times key hits)
  credited : l.creditedTimes key buckets hits =
    bucket.credited (l.capacity : ℚ) l.refillPerSec (times key hits)
  ordered : Core.Guarded l.step (InOrder key) buckets hits →
    (bucket.lastRefill :: times key hits).Pairwise (· ≤ ·)

variable {h : Hit} {hs : List Hit}

theorem Sees.cons_ne {bucket : Bucket ℚ} (he : h.key ≠ key)
    (ih : Sees l key (l.hit buckets h.key h.time).2 bucket hs) :
    Sees l key buckets bucket (h :: hs) := by
  have htimes : times key (h :: hs) = times key hs := by simp [times, he]
  refine ⟨?_, ?_, fun horder => ?_⟩
  · simpa [allowedTimes, he, htimes] using ih.allowed
  · simpa [creditedTimes, he, htimes] using ih.credited
  · rw [htimes]
    exact ih.ordered (horder.2 _ rfl)

theorem Sees.cons_self (hle : InOrder h.key buckets h →
      (l.current buckets h.key h.time).lastRefill ≤ h.time)
    (ih : Sees l h.key (l.hit buckets h.key h.time).2
      ((l.current buckets h.key h.time).take (l.capacity : ℚ) l.refillPerSec h.time).2 hs) :
    Sees l h.key buckets (l.current buckets h.key h.time) (h :: hs) := by
  have htimes : times h.key (h :: hs) = h.time :: times h.key hs := by simp [times]
  refine ⟨?_, ?_, fun horder => ?_⟩
  · rw [htimes, Bucket.allowed, ← ih.allowed]
    simp only [allowedTimes, true_and]
    rw [show (l.hit buckets h.key h.time).1 = _ from congrArg Prod.fst hit_eq]
  · rw [htimes, Bucket.credited, ← ih.credited]
    simp only [creditedTimes, true_and]
  · have hle := hle horder.1
    have hs := ih.ordered (horder.2 _ rfl)
    rw [Bucket.take_lastRefill] at hs
    rw [htimes]
    refine List.pairwise_cons.mpr ⟨fun t ht => ?_, hs⟩
    rcases List.mem_cons.mp ht with rfl | ht
    · exact hle
    · exact hle.trans ((List.pairwise_cons.mp hs).1 t ht)

theorem sees_of_bucket : ∀ {hits : List Hit} {key : Str} {buckets : Buckets} {bucket : Bucket ℚ},
    Core.Guarded l.step (l.Keeps key) buckets hits → buckets.get key = some bucket →
    Sees l key buckets bucket hits
  | [], _, _, _, _, _ => ⟨rfl, rfl, fun _ => by simp [times]⟩
  | h :: hs, key, buckets, bucket, hkept, hb => by
    by_cases he : h.key = key
    · subst he
      have hcur : l.current buckets h.key h.time = bucket := by simp [current, hb]
      have ih := sees_of_bucket (hkept.2 _ rfl) (get_hit_self _ _ _ _)
      rw [← hcur]
      refine .cons_self (fun horder => ?_) ih
      rw [hcur]
      exact horder rfl bucket hb
    · exact .cons_ne he (sees_of_bucket (hkept.2 _ rfl) (get_keeps hkept.1 he hb))

/-- A key without a bucket gets a full one at its first hit. -/
theorem sees_of_absent : ∀ {hits : List Hit} {buckets : Buckets},
    Core.Guarded l.step (l.Keeps key) buckets hits → buckets.get key = none →
    ∃ bucket : Bucket ℚ, 0 ≤ bucket.tokens ∧ Sees l key buckets bucket hits
  | [], _, _, _ => ⟨⟨0, 0⟩, le_rfl, rfl, rfl, fun _ => by simp [times]⟩
  | h :: hs, buckets, hkept, hb => by
    by_cases he : h.key = key
    · subst he
      have hcur : l.current buckets h.key h.time = ⟨l.capacity, h.time⟩ := by simp [current, hb]
      have ih := sees_of_bucket (hkept.2 _ rfl) (get_hit_self _ _ _ _)
      refine ⟨_, ?_, .cons_self (fun _ => ?_) ih⟩
      · rw [hcur]
        exact Nat.cast_nonneg _
      · rw [hcur]
    · have hnone : (l.hit buckets h.key h.time).2.get key = none := by
        rcases get_hit_of_ne l buckets h.time (Ne.symm he) with hg | hg
        · rw [hg, hb]
        · exact hg
      obtain ⟨bucket, h0, ih⟩ := sees_of_absent (hkept.2 _ rfl) hnone
      exact ⟨bucket, h0, .cons_ne he ih⟩

/-! ## Waiting -/

theorem hit_allowed_iff : (l.hit buckets key t).1 = true ↔
    1 ≤ (l.current buckets key t).refilled (l.capacity : ℚ) l.refillPerSec t := by
  rw [hit_eq, Bucket.take]
  split
  · rename_i h
    simp [h]
  · rename_i h
    simp [h]

theorem one_le_capacity (l : TokenBucketLimiter) : (1 : ℚ) ≤ l.capacity := by
  exact_mod_cast l.capacity_pos

/-- Who waits for `Retry-After` is let through, unless another hit comes first. -/
theorem hit_retryAfter (hlast : ∀ bucket, buckets.get key = some bucket → bucket.lastRefill ≤ t) :
    (l.hit buckets key (t + l.retryAfter buckets key t)).1 = true := by
  rw [hit_allowed_iff]
  cases hb : buckets.get key with
  | none =>
    have := Nat.succ_le_of_lt l.capacity_pos
    simpa [current, hb, Bucket.refilled] using this
  | some bucket =>
    have hle := hlast bucket hb
    have hrate := l.refillPerSec_pos
    have hcap := l.one_le_capacity
    -- the refill that `retry_after` counts on
    have hwait : 1 ≤ bucket.tokens + (t - bucket.lastRefill) * l.refillPerSec +
        l.retryAfter buckets key t * l.refillPerSec := by
      have hpos : (0 : ℚ) ≤ l.retryAfter buckets key t * l.refillPerSec :=
        mul_nonneg (Nat.cast_nonneg _) hrate.le
      simp only [retryAfter, hb, max_eq_right (sub_nonneg.mpr hle)] at hpos ⊢
      split
      · rename_i h1
        have := h1.trans (min_le_right _ _)
        rw [if_pos h1] at hpos
        linarith
      · rename_i h1
        have hmin : min (l.capacity : ℚ) (bucket.tokens + (t - bucket.lastRefill) * l.refillPerSec) =
            bucket.tokens + (t - bucket.lastRefill) * l.refillPerSec := by
          refine min_eq_right (le_of_lt ?_)
          by_contra hlt
          exact h1 (le_min hcap (hcap.trans (not_lt.mp hlt)))
        rw [hmin]
        generalize bucket.tokens + (t - bucket.lastRefill) * l.refillPerSec = tokens
        have hceil : (1 - tokens) / l.refillPerSec ≤
            (max 1 ⌈(1 - tokens) / l.refillPerSec⌉.toNat : Nat) := by
          have h := Int.le_ceil ((1 - tokens) / l.refillPerSec)
          have hn : (⌈(1 - tokens) / l.refillPerSec⌉ : ℚ) ≤
              (⌈(1 - tokens) / l.refillPerSec⌉.toNat : ℚ) := by
            exact_mod_cast Int.self_le_toNat _
          refine h.trans (hn.trans ?_)
          exact_mod_cast le_max_right _ _
        have := (div_le_iff₀ hrate).mp hceil
        linarith
    have hfill : (l.retryAfter buckets key t : ℚ) ≥ 0 := Nat.cast_nonneg _
    simp only [current, hb, Option.getD_some, Bucket.refilled]
    rw [max_eq_right (by linarith)]
    refine le_min hcap ?_
    have hsum : (t + l.retryAfter buckets key t - bucket.lastRefill) * l.refillPerSec =
        (t - bucket.lastRefill) * l.refillPerSec +
          l.retryAfter buckets key t * l.refillPerSec := by
      ring
    rw [hsum]
    linarith

end TokenBucketLimiter

open TokenBucketLimiter

/-- **The rate bound.** For a key whose bucket is not evicted: as long as no hit of the key carries
a time before the last refill of its bucket, any interval sees at most the capacity and its refill,
and no stretch of time is credited twice. -/
theorem rate_bound (l : TokenBucketLimiter) (key : Str) (hits : List Hit)
    (hkept : Core.Guarded l.step (l.Keeps key) .empty hits)
    (horder : Core.Guarded l.step (InOrder key) .empty hits) : l.RateBounded key hits := by
  obtain ⟨bucket, htokens, hsees⟩ := sees_of_absent hkept OrderedDict.get_empty
  have hsorted := hsees.ordered horder
  constructor
  · intro a e hae
    have hbound := Bucket.allowed_between (Nat.cast_nonneg l.capacity) l.refillPerSec_pos.le hae
      (times key hits) bucket htokens (List.pairwise_cons.mp hsorted).2
    rw [hsees.allowed]
    refine hbound.trans (le_of_eq ?_)
    rw [refillPerSec]
    ring
  · rw [hsees.credited]
    exact (Bucket.credited_disjoint hsorted).2.imp .inl

/-- One token a second. -/
def oneASecond : TokenBucketLimiter :=
  { capacity := 1, windowSeconds := 1, capacity_pos := by decide, window_pos := by decide
    maxBuckets_pos := by decide }

theorem rate_bound_two_hits : oneASecond.RateBounded "ip" [⟨"ip", 0⟩, ⟨"ip", 1⟩] := by
  refine rate_bound oneASecond "ip" [⟨"ip", 0⟩, ⟨"ip", 1⟩] (guarded_of_forall ?_) ?_
  · intro buckets h hh
    exact keeps_self (by simp at hh; rcases hh with rfl | rfl <;> rfl)
  · refine .cons nofun rfl (.cons ?_ rfl trivial)
    intro _ bucket hb
    cases hb.symm.trans (get_hit_self _ _ _ _)
    rw [Bucket.take_lastRefill]
    decide

/-- A thread that read the clock before the others hits last, and the second before it is
credited again. -/
theorem rate_not_bounded :
    Core.Guarded oneASecond.step (oneASecond.Keeps "ip") .empty
        [⟨"ip", 0⟩, ⟨"ip", 1⟩, ⟨"ip", 0⟩, ⟨"ip", 1⟩] ∧
      oneASecond.allowedTimes "ip" .empty [⟨"ip", 0⟩, ⟨"ip", 1⟩, ⟨"ip", 0⟩, ⟨"ip", 1⟩] =
        [0, 1, 1] ∧
      oneASecond.creditedTimes "ip" .empty [⟨"ip", 0⟩, ⟨"ip", 1⟩, ⟨"ip", 0⟩, ⟨"ip", 1⟩] =
        [(0, 1), (0, 1)] ∧
      ¬oneASecond.RateBounded "ip" [⟨"ip", 0⟩, ⟨"ip", 1⟩, ⟨"ip", 0⟩, ⟨"ip", 1⟩] := by
  have hallowed : oneASecond.allowedTimes "ip" .empty
      [⟨"ip", 0⟩, ⟨"ip", 1⟩, ⟨"ip", 0⟩, ⟨"ip", 1⟩] = [0, 1, 1] := by
    decide +kernel
  refine ⟨guarded_of_forall ?_, hallowed, by decide +kernel, fun h => ?_⟩
  · intro buckets h hh
    exact keeps_self (by simp at hh; rcases hh with rfl | rfl | rfl | rfl <;> rfl)
  · have hbound := h.1 1 1 le_rfl
    rw [hallowed] at hbound
    revert hbound
    decide +kernel

end KnowledgeKiln.L4.RateLimit
