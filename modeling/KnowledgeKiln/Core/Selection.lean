import KnowledgeKiln.Core.Sorted

/-!
# The best of a list

`IsTop key n pool sel`: `sel` is `n` best elements of `pool`, or all of it.

* `isTop_take`: a cut of a best-first list is such a selection.
* `IsTop.le_of_not_mem`: nothing left out beats what was taken.
* `take_eq_take`: when two orders of one list agree on their first `n` elements.
* `precedes_of_take_eq`: and what follows when they do.
* `sortDesc_lex`: a stable sort of a sorted list is sorted by both keys.
* `filter_sortDesc`: a stable sort and a filter commute.
* `mem_take_iff`: an element is in the cut when fewer than `n` come before it.
* `LongestPrefix.extend_iff`: when a longest prefix stays the longest as the list grows.
* `filter_key`, `length_filter_key_le`: a list whose elements have distinct keys, filtered by key.
-/
namespace KnowledgeKiln.Core

variable {α β K : Type*} [LinearOrder K]

/-- `sel` holds `n` elements of `pool`, or all of it, and no other is better. -/
def IsTop (key : α → K) (n : Nat) (pool sel : List α) : Prop :=
  ∃ rest, (sel ++ rest).Perm pool ∧ sel.length = min n pool.length ∧
    ∀ a ∈ sel, ∀ b ∈ rest, key b ≤ key a

/-- A cut of a best-first order of the pool. -/
theorem isTop_take {key : α → K} {pool sorted : List α} (hp : sorted.Perm pool)
    (hs : sorted.Pairwise fun a b => key b ≤ key a) (n : Nat) :
    IsTop key n pool (sorted.take n) := by
  refine ⟨sorted.drop n, ?_, ?_, ?_⟩
  · rw [List.take_append_drop]
    exact hp
  · rw [List.length_take, hp.length_eq]
  · rw [← List.take_append_drop n sorted, List.pairwise_append] at hs
    exact hs.2.2

namespace IsTop

variable {key : α → K} {n : Nat} {pool sel : List α}

theorem length_eq (h : IsTop key n pool sel) : sel.length = min n pool.length :=
  let ⟨_, _, hl, _⟩ := h
  hl

theorem subset (h : IsTop key n pool sel) : sel ⊆ pool := by
  obtain ⟨rest, hp, -, -⟩ := h
  exact fun a ha => hp.subset (List.mem_append_left _ ha)

theorem le_of_not_mem (h : IsTop key n pool sel) {a b : α} (ha : a ∈ sel) (hb : b ∈ pool)
    (hn : b ∉ sel) : key b ≤ key a := by
  obtain ⟨rest, hp, -, hle⟩ := h
  exact hle a ha b ((List.mem_append.mp (hp.mem_iff.mpr hb)).resolve_left hn)

end IsTop

/-! ## Distinct keys -/

section
variable {κ : Type*} [DecidableEq κ] {f : α → κ} {l : List α}

theorem length_filter_key_le (hn : (l.map f).Nodup) (k : κ) :
    (l.filter fun a => f a = k).length ≤ 1 := by
  have h := List.nodup_iff_count_le_one.mp hn k
  rwa [List.count_eq_countP, List.countP_map, List.countP_eq_length_filter] at h

theorem filter_key (hn : (l.map f).Nodup) {a : α} (ha : a ∈ l) :
    l.filter (fun b => f b = f a) = [a] := by
  have hmem : a ∈ l.filter fun b => f b = f a := List.mem_filter.mpr ⟨ha, by simp⟩
  have hlen := length_filter_key_le hn (f a)
  match h : l.filter fun b => f b = f a, hlen with
  | [], _ => simp [h] at hmem
  | [b], _ =>
    rw [h, List.mem_singleton] at hmem
    rw [hmem]
  | _ :: _ :: _, hlen => simp at hlen

end

/-! ## Stability -/

theorem orderedInsert_congr {r r' : α → α → Prop} [DecidableRel r] [DecidableRel r'] {a : α} :
    ∀ {l : List α}, (∀ b ∈ l, r a b ↔ r' a b) → l.orderedInsert r a = l.orderedInsert r' a
  | [], _ => rfl
  | b :: l, h => by
    have ih : l.orderedInsert r a = l.orderedInsert r' a :=
      orderedInsert_congr fun c hc => h c (List.mem_cons_of_mem _ hc)
    simp only [List.orderedInsert_cons, h b List.mem_cons_self, ih]

theorem filter_orderedInsert {r : α → α → Prop} [DecidableRel r] [IsTrans α r] {p : α → Bool}
    {a : α} : ∀ {l : List α}, l.Pairwise r →
      (l.orderedInsert r a).filter p =
        if p a then (l.filter p).orderedInsert r a else l.filter p
  | [], _ => by by_cases ha : p a <;> simp [ha]
  | b :: l, hl => by
    obtain ⟨hb, hl⟩ := List.pairwise_cons.mp hl
    by_cases hab : r a b
    · rw [List.orderedInsert_cons, if_pos hab]
      have hhead : ∀ c ∈ (b :: l).filter p, r a c := by
        intro c hc
        rcases List.mem_cons.mp (List.mem_of_mem_filter hc) with rfl | hc
        · exact hab
        · exact IsTrans.trans a b c hab (hb c hc)
      by_cases ha : p a
      · rw [if_pos ha, List.filter_cons_of_pos ha]
        cases hf : (b :: l).filter p with
        | nil => rfl
        | cons c t => rw [List.orderedInsert_cons, if_pos (hhead c (by simp [hf]))]
      · rw [if_neg ha, List.filter_cons_of_neg ha]
    · have ih := filter_orderedInsert (a := a) (p := p) hl
      rw [List.orderedInsert_cons, if_neg hab]
      by_cases hpb : p b
      · rw [List.filter_cons_of_pos hpb, List.filter_cons_of_pos hpb, ih]
        by_cases ha : p a
        · rw [if_pos ha, if_pos ha, List.orderedInsert_cons, if_neg hab]
        · rw [if_neg ha, if_neg ha]
      · rw [List.filter_cons_of_neg hpb, List.filter_cons_of_neg hpb, ih]

/-- A stable sort and a filter commute. -/
theorem filter_sortDesc (key : α → K) (p : α → Bool) (l : List α) :
    (sortDesc key l).filter p = sortDesc key (l.filter p) := by
  induction l with
  | nil => rfl
  | cons a l ih =>
    have hcons : ∀ t : List α, sortDesc key (a :: t) =
        (sortDesc key t).orderedInsert (fun a b => key b ≤ key a) a := fun _ => rfl
    rw [hcons, filter_orderedInsert (sortDesc_pairwise key l), ih]
    by_cases ha : p a
    · rw [if_pos ha, List.filter_cons_of_pos ha, hcons]
    · rw [if_neg ha, List.filter_cons_of_neg ha]

/-- First by `key`, then by `key'`. -/
def LexDesc {K' : Type*} [LinearOrder K'] (key : α → K) (key' : α → K') (a b : α) : Prop :=
  key b ≤ key a ∧ (key a = key b → key' b ≤ key' a)

/-- A stable sort by `key` of a list that is sorted by `key'`. -/
theorem sortDesc_lex {K' : Type*} [LinearOrder K'] {key : α → K} {key' : α → K'} {l : List α}
    (h : l.Pairwise fun a b => key' b ≤ key' a) : (sortDesc key l).Pairwise (LexDesc key key') := by
  have hdec : DecidableRel (LexDesc key key') := fun a b => by unfold LexDesc; infer_instance
  have htotal : Std.Total (LexDesc key key') := ⟨fun a b => by
    unfold LexDesc
    rcases lt_trichotomy (key a) (key b) with hk | hk | hk
    · exact .inr ⟨hk.le, fun he => absurd he hk.ne'⟩
    · rcases le_total (key' a) (key' b) with hk' | hk'
      · exact .inr ⟨hk.le, fun _ => hk'⟩
      · exact .inl ⟨hk.ge, fun _ => hk'⟩
    · exact .inl ⟨hk.le, fun he => absurd he hk.ne'⟩⟩
  have htrans : IsTrans α (LexDesc key key') := ⟨fun a b c hab hbc =>
    ⟨hbc.1.trans hab.1, fun he => by
      have hba : key a = key b := le_antisymm (he ▸ hbc.1) hab.1
      exact (hbc.2 (hba ▸ he)).trans (hab.2 hba)⟩⟩
  have heq : sortDesc key l = l.insertionSort (LexDesc key key') := by
    induction l with
    | nil => rfl
    | cons a l ih =>
      obtain ⟨ha, hl⟩ := List.pairwise_cons.mp h
      have hcons : sortDesc key (a :: l) =
          (sortDesc key l).orderedInsert (fun a b => key b ≤ key a) a := rfl
      rw [hcons, List.insertionSort_cons, ← ih hl]
      refine orderedInsert_congr fun b hb => ?_
      exact ⟨fun hle => ⟨hle, fun _ => ha b (mem_sortDesc.mp hb)⟩, And.left⟩
  rw [heq]
  exact List.pairwise_insertionSort _ _

/-- An element is in the cut when fewer than `n` come before it. -/
theorem mem_take_iff {r : α → α → Prop} [DecidableRel r] (hasymm : ∀ a b, r a b → ¬ r b a)
    {l : List α} (hl : l.Pairwise r) {a : α} (ha : a ∈ l) (n : Nat) :
    a ∈ l.take n ↔ l.countP (fun b => r b a) < n := by
  obtain ⟨u, v, rfl⟩ := List.mem_iff_append.mp ha
  obtain ⟨-, hv, huv⟩ := List.pairwise_append.mp hl
  have hau : a ∉ u := fun h => (hasymm a a (huv a h a List.mem_cons_self))
    (huv a h a List.mem_cons_self)
  have hcount : (u ++ a :: v).countP (fun b => r b a) = u.length := by
    have hu : u.countP (fun b => r b a) = u.length :=
      List.countP_eq_length.mpr fun b hb => decide_eq_true (huv b hb a List.mem_cons_self)
    have hav : (a :: v).countP (fun b => r b a) = 0 := by
      rw [List.countP_eq_zero]
      intro b hb hr
      have hr := of_decide_eq_true hr
      rcases List.mem_cons.mp hb with rfl | hb
      · exact hasymm b b hr hr
      · exact hasymm _ _ hr ((List.pairwise_cons.mp hv).1 b hb)
    rw [List.countP_append, hu, hav, Nat.add_zero]
  rw [hcount, List.take_append, List.mem_append]
  constructor
  · rintro (h | h)
    · exact absurd (List.mem_of_mem_take h) hau
    · by_contra hn
      rw [Nat.sub_eq_zero_of_le (Nat.not_lt.mp hn)] at h
      simp at h
  · intro h
    obtain ⟨m, hm⟩ : ∃ m, n - u.length = m + 1 := ⟨n - u.length - 1, by omega⟩
    right
    rw [hm, List.take_succ_cons]
    exact List.mem_cons_self

/-- Of two elements one comes first. -/
theorem pair_sublist_or {a b : α} (hne : a ≠ b) : ∀ {l : List α}, a ∈ l → b ∈ l →
    [a, b].Sublist l ∨ [b, a].Sublist l
  | c :: l, ha, hb => by
    rcases List.mem_cons.mp ha with rfl | ha'
    · have hb' : b ∈ l := (List.mem_cons.mp hb).resolve_left (Ne.symm hne)
      exact .inl ((List.singleton_sublist.mpr hb').cons_cons a)
    · rcases List.mem_cons.mp hb with rfl | hb'
      · exact .inr ((List.singleton_sublist.mpr ha').cons_cons b)
      · exact (pair_sublist_or hne ha' hb').imp (·.cons c) (·.cons c)

/-! ## Two orders of one list -/

/-- Two orders of one list agree on `n` elements when no element of the second's cut is behind,
in the second order, of one it may not be behind in the first. -/
theorem take_eq_take {r r' : α → α → Prop} : ∀ {n : Nat} {l l' : List α}, l.Perm l' →
    l.Pairwise r → l'.Pairwise r' →
    (∀ a ∈ l'.take n, ∀ b ∈ l', a ≠ b → r' a b → ¬ r b a) → l.take n = l'.take n
  | 0, _, _, _, _, _, _ => by simp
  | n + 1, [], l', hp, _, _, _ => by rw [hp.nil_eq]
  | n + 1, x :: l, [], hp, _, _, _ => absurd hp.symm (List.nil_perm.not.mpr (by simp))
  | n + 1, x :: l, a :: l', hp, hl, hl', h => by
    obtain ⟨hx, ht⟩ := List.pairwise_cons.mp hl
    obtain ⟨ha, ht'⟩ := List.pairwise_cons.mp hl'
    by_cases he : a = x
    · subst he
      have ih : l.take n = l'.take n := by
        refine take_eq_take hp.cons_inv ht ht' fun a ha b hb => ?_
        exact h a (List.mem_cons_of_mem _ ha) b (List.mem_cons_of_mem _ hb)
      rw [List.take_succ_cons, List.take_succ_cons, ih]
    · have hx' : x ∈ l' :=
        (List.mem_cons.mp (hp.subset List.mem_cons_self)).resolve_left (Ne.symm he)
      have ha' : a ∈ l :=
        (List.mem_cons.mp (hp.symm.subset List.mem_cons_self)).resolve_left he
      exact absurd (hx a ha') (h a List.mem_cons_self x (List.mem_cons_of_mem _ hx') he (ha x hx'))

/-- If they agree, what comes after an element of the cut in one comes after it in the other. -/
theorem precedes_of_take_eq {a b : α} : ∀ {n : Nat} {l l' : List α}, l.Nodup → l'.Nodup →
    l.take n = l'.take n → a ∈ l'.take n → [a, b].Sublist l' → ¬ [b, a].Sublist l
  | 0, _, _, _, _, _, ha, _ => by simp at ha
  | n + 1, _, [], _, _, _, ha, _ => by simp at ha
  | n + 1, [], x :: l', _, _, h, _, _ => by simp at h
  | n + 1, y :: l, x :: l', hn, hn', h, ha, hab => by
    rw [List.take_succ_cons, List.take_succ_cons, List.cons.injEq] at h
    obtain ⟨rfl, h⟩ := h
    obtain ⟨hy, ht⟩ := List.nodup_cons.mp hn
    obtain ⟨hy', ht'⟩ := List.nodup_cons.mp hn'
    rw [List.take_succ_cons, List.mem_cons] at ha
    intro hba
    rcases List.cons_sublist_cons'.mp hba with hba' | ⟨hb, hba'⟩
    · rcases ha with ha | ha
      · exact hy (ha ▸ hba'.subset (by simp))
      · rcases List.cons_sublist_cons'.mp hab with hab' | ⟨ha', -⟩
        · exact precedes_of_take_eq ht ht' h ha hab' hba'
        · exact hy' (ha' ▸ List.mem_of_mem_take ha)
    · rcases ha with ha | ha
      · exact hy (ha ▸ hba'.subset (by simp))
      · rcases List.cons_sublist_cons'.mp hab with hab' | ⟨ha', -⟩
        · exact hy' (hb ▸ hab'.subset (by simp))
        · exact hy' (ha' ▸ List.mem_of_mem_take ha)

/-! ## Longest prefixes -/

/-- `p` is the longest prefix of `l` with the property. -/
structure LongestPrefix (P : List α → Prop) (l p : List α) : Prop where
  initial : p <+: l
  holds : P p
  longest : ∀ q, q <+: l → P q → q.length ≤ p.length

namespace LongestPrefix

variable {P : List α → Prop} {l l' p p' : List α}

theorem congr {P' : List α → Prop} (hP : ∀ q, q <+: l → (P q ↔ P' q)) (h : LongestPrefix P l p) :
    LongestPrefix P' l p :=
  ⟨h.initial, (hP p h.initial).mp h.holds, fun q hq hP' => h.longest q hq ((hP q hq).mpr hP')⟩

theorem unique (h : LongestPrefix P l p) (h' : LongestPrefix P l p') : p = p' := by
  have hlen : p.length = p'.length :=
    le_antisymm (h'.longest p h.initial h.holds) (h.longest p' h'.initial h'.holds)
  exact (List.prefix_of_prefix_length_le h.initial h'.initial hlen.le).eq_of_length hlen

/-- What is asked of the elements of the longest prefix, asked of the last of every prefix. -/
theorem forall_iff {Q : α → Prop} (hP : ∀ {q q'}, q <+: q' → P q' → P q)
    (h : LongestPrefix P l p) : (∀ a ∈ p, Q a) ↔ ∀ q a, q ++ [a] <+: l → P (q ++ [a]) → Q a := by
  constructor
  · intro hall q a hq hfit
    refine hall a ((List.prefix_of_prefix_length_le hq h.initial ?_).subset (by simp))
    exact h.longest _ hq hfit
  · intro hall a ha
    obtain ⟨before, after, he⟩ := List.append_of_mem ha
    have hp : before ++ [a] <+: p := ⟨after, by simp [he]⟩
    exact hall before a (hp.trans h.initial) (hP hp h.holds)

/-- The property is one of short prefixes: the longest has at most `n` elements exactly when no
further one exists or fits. -/
theorem length_le_iff (hP : ∀ {q q'}, q <+: q' → P q' → P q) (h : LongestPrefix P l p) {n : Nat} :
    p.length ≤ n ↔ l.length ≤ n ∨ ¬ P (l.take (n + 1)) := by
  constructor
  · intro hle
    by_contra hn
    obtain ⟨hlt, hfit⟩ := not_or.mp hn
    have hlong := h.longest _ (List.take_prefix _ _) (not_not.mp hfit)
    rw [List.length_take] at hlong
    omega
  · rintro (hle | hnot)
    · exact h.initial.length_le.trans hle
    · by_contra hlt
      have htake : l.take (n + 1) <+: p := by
        refine List.prefix_of_prefix_length_le (List.take_prefix _ _) h.initial ?_
        rw [List.length_take]
        omega
      exact hnot (hP htake h.holds)

/-- The property is one of short prefixes: it stays the longest in `l'` exactly when `l'` has no
further element, or the first one does not fit behind `l`. -/
theorem extend_iff (hP : ∀ {q q'}, q <+: q' → P q' → P q) (hl : l <+: l')
    (h : LongestPrefix P l p) :
    LongestPrefix P l' p ↔ l'.length ≤ l.length ∨ ¬ P (l'.take (l.length + 1)) := by
  constructor
  · intro h'
    by_contra hn
    obtain ⟨hlt, hfit⟩ := not_or.mp hn
    have hle := h'.longest _ (List.take_prefix _ _) (not_not.mp hfit)
    have hpl := h.initial.length_le
    rw [List.length_take] at hle
    omega
  · intro hc
    refine ⟨h.initial.trans hl, h.holds, fun q hq hPq => ?_⟩
    by_cases hql : q.length ≤ l.length
    · exact h.longest q (List.prefix_of_prefix_length_le hq hl hql) hPq
    · rcases hc with hc | hc
      · exact absurd (hq.length_le.trans hc) hql
      · have htake : l'.take (l.length + 1) <+: q := by
          refine List.prefix_of_prefix_length_le (List.take_prefix _ _) hq ?_
          rw [List.length_take]
          omega
        exact absurd (hP htake hPq) hc

end LongestPrefix

end KnowledgeKiln.Core
