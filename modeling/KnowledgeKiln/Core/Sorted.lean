import Mathlib

/-!
# Sorting as Python does it

* `sortDesc key`: `xs.sort(key=..., reverse=True)`, which keeps the order of
  equal elements. A prefix of the result is a "best first" cut.
* `sortedSet`: `sorted(set(xs))`, which depends on the members only
  (`sortedSet_congr`).
* `SetOrder.visit`: a set in the order of its iteration, which may be any (`SetOrder.visit_perm`).

Both are insertion sorts, so they evaluate in the kernel.
-/
namespace KnowledgeKiln.Core

section Desc
variable {α β K : Type*} [LinearOrder K]

/-- `xs.sort(key=key, reverse=True)` -/
def sortDesc (key : α → K) (l : List α) : List α := l.insertionSort fun a b => key b ≤ key a

variable {key : α → K} {l : List α}

instance sortDesc_total : Std.Total fun a b : α => key b ≤ key a := ⟨fun a b => le_total (key b) (key a)⟩

instance sortDesc_isTrans : IsTrans α fun a b : α => key b ≤ key a := ⟨fun _ _ _ h₁ h₂ => le_trans h₂ h₁⟩

theorem sortDesc_perm (key : α → K) (l : List α) : (sortDesc key l).Perm l :=
  List.perm_insertionSort _ l

@[simp] theorem mem_sortDesc {a : α} : a ∈ sortDesc key l ↔ a ∈ l := (sortDesc_perm key l).mem_iff

theorem sortDesc_pairwise (key : α → K) (l : List α) :
    (sortDesc key l).Pairwise fun a b => key b ≤ key a :=
  List.pairwise_insertionSort _ l

/-- Sorting commutes with a map that keeps the key. -/
theorem sortDesc_map (f : α → β) (key' : β → K) (hk : ∀ a, key' (f a) = key a) (l : List α) :
    sortDesc key' (l.map f) = (sortDesc key l).map f := by
  symm
  apply List.map_insertionSort
  intro a _ b _
  simp only [hk]

end Desc

section Set
variable {α : Type*} [LinearOrder α]

/-- `sorted(set(xs))` -/
def sortedSet (l : List α) : List α := l.dedup.insertionSort (· ≤ ·)

@[simp] theorem mem_sortedSet {a : α} {l : List α} : a ∈ sortedSet l ↔ a ∈ l := by
  simp [sortedSet]

theorem sortedSet_nodup (l : List α) : (sortedSet l).Nodup :=
  (List.perm_insertionSort _ _).nodup_iff.mpr l.nodup_dedup

theorem sortedSet_pairwise (l : List α) : (sortedSet l).Pairwise (· ≤ ·) :=
  List.pairwise_insertionSort _ _

/-- Two nodup lists in ascending order with the same members are equal. -/
theorem eq_of_sorted_of_mem_iff {l l' : List α} (h : l.Pairwise (· ≤ ·)) (h' : l'.Pairwise (· ≤ ·))
    (n : l.Nodup) (n' : l'.Nodup) (hm : ∀ a, a ∈ l ↔ a ∈ l') : l = l' :=
  List.Perm.eq_of_pairwise' h h' ((List.perm_ext_iff_of_nodup n n').mpr hm)

theorem sortedSet_congr {l l' : List α} (h : ∀ a, a ∈ l ↔ a ∈ l') : sortedSet l = sortedSet l' :=
  eq_of_sorted_of_mem_iff (sortedSet_pairwise l) (sortedSet_pairwise l') (sortedSet_nodup l)
    (sortedSet_nodup l') (by simpa using h)

theorem sortedSet_filter_congr {l l' : List α} {p p' : α → Bool}
    (h : ∀ a, a ∈ l ∧ p a = true ↔ a ∈ l' ∧ p' a = true) :
    (sortedSet l).filter p = (sortedSet l').filter p' := by
  refine eq_of_sorted_of_mem_iff ((sortedSet_pairwise l).filter p) ((sortedSet_pairwise l').filter p')
    ((sortedSet_nodup l).filter p) ((sortedSet_nodup l').filter p') ?_
  intro a
  simpa using h a

/-- At least two members: two of them are different. -/
theorem two_le_length_sortedSet {l : List α} :
    2 ≤ (sortedSet l).length ↔ ∃ a ∈ l, ∃ b ∈ l, a ≠ b := by
  constructor
  · intro h
    match hs : sortedSet l, h with
    | a :: b :: t, _ =>
      have hn := sortedSet_nodup l
      rw [hs] at hn
      refine ⟨a, ?_, b, ?_, ?_⟩
      · rw [← mem_sortedSet, hs]; simp
      · rw [← mem_sortedSet, hs]; simp
      · intro e; subst e; simp at hn
  · rintro ⟨a, ha, b, hb, hne⟩
    have ha' : a ∈ sortedSet l := mem_sortedSet.mpr ha
    have hb' : b ∈ sortedSet l := mem_sortedSet.mpr hb
    match hs : sortedSet l with
    | [] => rw [hs] at ha'; cases ha'
    | [c] =>
      rw [hs, List.mem_singleton] at ha' hb'
      exact absurd (ha'.trans hb'.symm) hne
    | _ :: _ :: _ => simp

end Set

/-! ## Sets

The iteration of a set promises no order. -/

section Sets
variable {α β : Type*}

/-- An order of iteration for the sets of every size, by the positions of their elements. -/
abbrev SetOrder := (n : Nat) → Equiv.Perm (Fin n)

/-- The elements of a set, as an iteration visits them. -/
def SetOrder.visit (order : SetOrder) (l : List α) : List α :=
  List.ofFn fun i => l.get (order l.length i)

theorem SetOrder.visit_perm (order : SetOrder) (l : List α) : (order.visit l).Perm l := by
  have hperm := (order l.length).ofFn_comp_perm l.get
  rw [List.ofFn_get] at hperm
  exact hperm

@[simp] theorem SetOrder.mem_visit {order : SetOrder} {l : List α} {a : α} :
    a ∈ order.visit l ↔ a ∈ l := (order.visit_perm l).mem_iff

/-- A map keeps the positions. -/
theorem SetOrder.visit_map (order : SetOrder) (f : α → β) (l : List α) :
    order.visit (l.map f) = (order.visit l).map f := by
  have hposition : ∀ {m n : Nat} (h : m = n) (i : Fin n),
      (order m (Fin.cast h.symm i) : Nat) = order n i := by
    intro m n h i
    subst h
    rfl
  have hlen : (l.map f).length = l.length := List.length_map f
  rw [SetOrder.visit, SetOrder.visit, List.ofFn_congr hlen, List.map_ofFn]
  refine List.ofFn_inj.mpr (funext fun i => ?_)
  simp [hposition hlen i]

end Sets

end KnowledgeKiln.Core
