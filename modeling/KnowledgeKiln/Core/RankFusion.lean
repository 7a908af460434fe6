import Mathlib

/-!
# Reciprocal rank fusion

Several ranked lists ("arms") vote on their members: rank `r` is worth `1 / (k + r)`, and the
votes for a member add up.

* `lookup_accumulate`: adding up votes in a dictionary gives every key its total.
* `total_votes`: a duplicate-free arm votes for a member once, at its rank.
* `vote_pos`, `vote_le`, `vote_eq_iff`: the worth of a rank, and that only the first rank is
  worth the most.
* `fused_bounds`: two arms give a member of either at most `2 / (k + 1)`, and that much only when
  it is first in both.
-/
namespace KnowledgeKiln.Core

variable {α : Type*} [DecidableEq α]

/-! ## Totals by key -/

/-- `scores[a] += x` on a dictionary that starts every key at zero. -/
def addTo (a : α) (x : ℚ) : List (α × ℚ) → List (α × ℚ)
  | [] => [(a, x)]
  | (b, y) :: rest => if b = a then (b, y + x) :: rest else (b, y) :: addTo a x rest

/-- The loop over `votes`. -/
def accumulate (scores votes : List (α × ℚ)) : List (α × ℚ) :=
  votes.foldl (fun scores vote => addTo vote.1 vote.2 scores) scores

/-- What the votes for `a` add up to. -/
def total (votes : List (α × ℚ)) (a : α) : ℚ := ((votes.filter (·.1 = a)).map (·.2)).sum

@[simp] theorem total_nil (a : α) : total [] a = 0 := rfl

theorem total_cons (vote : α × ℚ) (votes : List (α × ℚ)) (a : α) :
    total (vote :: votes) a = (if vote.1 = a then vote.2 else 0) + total votes a := by
  unfold total
  by_cases h : vote.1 = a <;> simp [h]

theorem total_of_not_mem {votes : List (α × ℚ)} {a : α} (h : a ∉ votes.map Prod.fst) :
    total votes a = 0 := by
  have hf : votes.filter (·.1 = a) = [] := by
    rw [List.filter_eq_nil_iff]
    intro vote hv he
    exact h (List.mem_map.mpr ⟨vote, hv, of_decide_eq_true he⟩)
  simp [total, hf]

theorem lookup_addTo (a b : α) (x : ℚ) (scores : List (α × ℚ)) :
    (addTo a x scores).lookup b =
      if b = a then some ((scores.lookup a).getD 0 + x) else scores.lookup b := by
  induction scores with
  | nil =>
    by_cases h : b = a
    · simp [addTo, h]
    · simp [addTo, h, List.lookup_cons, beq_false_of_ne h]
  | cons p rest ih =>
    obtain ⟨c, y⟩ := p
    by_cases hc : c = a
    · subst hc
      by_cases h : b = c
      · simp [addTo, h]
      · simp [addTo, h, List.lookup_cons, beq_false_of_ne h]
    · rw [addTo, if_neg hc, List.lookup_cons, List.lookup_cons, List.lookup_cons,
        beq_false_of_ne (Ne.symm hc), ih]
      by_cases h : b = a
      · subst h
        simp [beq_false_of_ne (Ne.symm hc)]
      · simp [h]

/-- **Adding up.** A key that was there or is voted for holds what it held plus its total. -/
theorem lookup_accumulate (scores votes : List (α × ℚ)) (a : α) :
    (accumulate scores votes).lookup a =
      if a ∈ votes.map Prod.fst then some ((scores.lookup a).getD 0 + total votes a)
      else scores.lookup a := by
  induction votes generalizing scores with
  | nil => simp [accumulate]
  | cons vote votes ih =>
    have hstep : accumulate scores (vote :: votes) =
        accumulate (addTo vote.1 vote.2 scores) votes := rfl
    rw [hstep, ih, lookup_addTo, total_cons]
    by_cases hv : a = vote.1
    · subst hv
      by_cases hm : vote.1 ∈ votes.map Prod.fst
      · rw [if_pos hm, if_pos rfl, if_pos rfl, if_pos (by simp), Option.getD_some, add_assoc]
      · rw [if_neg hm, if_pos rfl, if_pos rfl, if_pos (by simp), total_of_not_mem hm, add_zero]
    · have hm : a ∈ (vote :: votes).map Prod.fst ↔ a ∈ votes.map Prod.fst := by simp [hv]
      simp only [hm, hv, if_false, Ne.symm hv, zero_add]

/-! ## The votes of an arm -/

/-- The votes of an arm whose first rank is `first`. -/
def votes (k first : Nat) (arm : List α) : List (α × ℚ) :=
  (arm.zipIdx first).map fun p => (p.1, 1 / ((k : ℚ) + p.2))

omit [DecidableEq α] in
@[simp] theorem map_fst_votes (k first : Nat) (arm : List α) :
    (votes k first arm).map Prod.fst = arm := by
  simp [votes, Function.comp_def]

/-- A duplicate-free arm votes once for each of its members. -/
theorem total_votes {arm : List α} (h : arm.Nodup) (k first : Nat) (a : α) :
    total (votes k first arm) a =
      if a ∈ arm then 1 / ((k : ℚ) + (first + arm.idxOf a : Nat)) else 0 := by
  induction arm generalizing first with
  | nil => simp [votes]
  | cons b arm ih =>
    obtain ⟨hb, hn⟩ := List.nodup_cons.mp h
    have hstep : votes k first (b :: arm) = (b, 1 / ((k : ℚ) + first)) :: votes k (first + 1) arm := rfl
    rw [hstep, total_cons, ih hn]
    by_cases hab : b = a
    · subst hab
      simp [hb]
    · have hi : (b :: arm).idxOf a = arm.idxOf a + 1 := List.idxOf_cons_ne _ hab
      simp only [hab, if_false, zero_add, List.mem_cons, Ne.symm hab, false_or, hi]
      rw [Nat.add_assoc, Nat.add_comm 1]

/-! ## The worth of a rank -/

section
variable {k : Nat} {arm : List α} {a : α}

/-- What the arm gives `a`: its vote at rank `idxOf a + 1`, or nothing. -/
def vote (k : Nat) (arm : List α) (a : α) : ℚ :=
  if a ∈ arm then 1 / ((k : ℚ) + (1 + arm.idxOf a : Nat)) else 0

theorem vote_nonneg : 0 ≤ vote k arm a := by
  unfold vote
  split
  · positivity
  · exact le_refl _

theorem vote_pos (h : a ∈ arm) : 0 < vote k arm a := by
  rw [vote, if_pos h]
  positivity

theorem vote_le : vote k arm a ≤ 1 / ((k : ℚ) + 1) := by
  unfold vote
  split
  · apply one_div_le_one_div_of_le (by positivity)
    push_cast
    have : (0 : ℚ) ≤ (arm.idxOf a : ℚ) := by positivity
    linarith
  · positivity

/-- Only the first rank is worth the most. -/
theorem vote_eq_iff : vote k arm a = 1 / ((k : ℚ) + 1) ↔ arm.head? = some a := by
  have hk : (0 : ℚ) < (k : ℚ) + 1 := by positivity
  unfold vote
  cases arm with
  | nil =>
    have hne : (0 : ℚ) ≠ 1 / ((k : ℚ) + 1) := (one_div_pos.mpr hk).ne
    simpa using hne
  | cons b arm =>
    by_cases hb : b = a
    · simp [hb]
    · have hi : (b :: arm).idxOf a = arm.idxOf a + 1 := List.idxOf_cons_ne _ hb
      rw [List.head?_cons, Option.some.injEq, iff_false_right hb, hi]
      split
      · intro he
        rw [one_div, one_div, inv_inj] at he
        push_cast at he
        have : (0 : ℚ) ≤ (arm.idxOf a : ℚ) := by positivity
        linarith
      · exact (one_div_pos.mpr hk).ne

/-- **Bounds.** Two arms, with the sum rescaled by `(k + 1) / 2`: a member of either lands in
`(0, 1]`, and on 1 exactly when it is first in both. -/
theorem fused_bounds {arm' : List α} (h : a ∈ arm ∨ a ∈ arm') :
    let s := (vote k arm a + vote k arm' a) * (((k : ℚ) + 1) / 2)
    0 < s ∧ s ≤ 1 ∧ (s = 1 ↔ arm.head? = some a ∧ arm'.head? = some a) := by
  intro s
  have hk : (0 : ℚ) < (k : ℚ) + 1 := by positivity
  have hx : vote k arm a ≤ 1 / ((k : ℚ) + 1) := vote_le
  have hy : vote k arm' a ≤ 1 / ((k : ℚ) + 1) := vote_le
  have hsum : 0 < vote k arm a + vote k arm' a := by
    rcases h with h | h
    · exact add_pos_of_pos_of_nonneg (vote_pos h) vote_nonneg
    · exact add_pos_of_nonneg_of_pos vote_nonneg (vote_pos h)
  have htop : (1 / ((k : ℚ) + 1) + 1 / ((k : ℚ) + 1)) * (((k : ℚ) + 1) / 2) = 1 := by
    field_simp
    norm_num
  have hs1 : s = 1 ↔
      vote k arm a + vote k arm' a = 1 / ((k : ℚ) + 1) + 1 / ((k : ℚ) + 1) := by
    have hc : ((k : ℚ) + 1) / 2 ≠ 0 := by positivity
    have hi : s = (1 / ((k : ℚ) + 1) + 1 / ((k : ℚ) + 1)) * (((k : ℚ) + 1) / 2) ↔
        vote k arm a + vote k arm' a = 1 / ((k : ℚ) + 1) + 1 / ((k : ℚ) + 1) := mul_left_inj' hc
    rwa [htop] at hi
  refine ⟨mul_pos hsum (by positivity), ?_, ?_⟩
  · calc s ≤ (1 / ((k : ℚ) + 1) + 1 / ((k : ℚ) + 1)) * (((k : ℚ) + 1) / 2) :=
          mul_le_mul_of_nonneg_right (add_le_add hx hy) (by positivity)
      _ = 1 := htop
  · rw [hs1, ← vote_eq_iff (k := k), ← vote_eq_iff (k := k)]
    constructor
    · intro he
      constructor <;> linarith
    · rintro ⟨h₁, h₂⟩
      rw [h₁, h₂]

end

end KnowledgeKiln.Core
