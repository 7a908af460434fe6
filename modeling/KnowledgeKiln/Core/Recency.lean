import KnowledgeKiln.Core.OrderedDict

/-!
# The order of recency

A dictionary in which a touched key goes to the end is in the order of the last touches. `touches`
lists all touches of a run, the last one first; a key that is evicted from the front of a dictionary
of `n` others was not touched since `n` other keys were.

* `since`: the keys touched since the last touch of a key.
* `InOrder`: behind each key come only keys that were touched since.
* `InOrder.putLast`, `InOrder.sublist`: a touch keeps the order, and so does any removal.
* `InOrder.le_card_since`: what an eviction from the front says.
-/
namespace KnowledgeKiln.Core

namespace OrderedDict

variable {κ α : Type} [DecidableEq κ] {d d' : OrderedDict κ α} {k k' : κ} {a : α}

/-- `del d[k]` -/
def erase (d : OrderedDict κ α) (k : κ) : OrderedDict κ α where
  items := d.items.filter fun p => decide (p.1 ≠ k)
  nodup := (List.filter_sublist.map _).nodup d.nodup

/-- `while len(d) > n: d.popitem(last=False)`; each turn makes the dictionary one shorter. -/
def shrink (n : Nat) (d : OrderedDict κ α) : OrderedDict κ α := popFirst^[d.length - n] d

theorem get_erase : (d.erase k).get k' = if k' = k then none else d.get k' := by
  by_cases h : k' = k
  · rw [if_pos h, get_eq_none, h]
    simp [erase]
  · rw [if_neg h]
    exact get_congr fun b => by simp [erase, h]

omit [DecidableEq κ] in
/-- The loop, turn by turn. -/
theorem shrink_eq (n : Nat) (d : OrderedDict κ α) :
    d.shrink n = if n < d.length then d.popFirst.shrink n else d := by
  have hlen : d.popFirst.length = d.length - 1 := List.length_tail
  unfold shrink
  split
  · rename_i h
    rw [hlen, ← Function.iterate_succ_apply, show d.length - n = d.length - 1 - n + 1 by omega]
  · rename_i h
    rw [Nat.sub_eq_zero_of_le (not_lt.mp h)]
    rfl

omit [DecidableEq κ] in
/-- The first pairs go. -/
theorem items_shrink (n : Nat) (d : OrderedDict κ α) :
    (d.shrink n).items = d.items.drop (d.length - n) := by
  unfold shrink
  induction d.length - n generalizing d with
  | zero => rfl
  | succ m ih =>
    rw [Function.iterate_succ_apply, ih]
    exact List.drop_tail

omit [DecidableEq κ] in
theorem length_shrink_le (n : Nat) (d : OrderedDict κ α) : (d.shrink n).length ≤ n := by
  have hlen : d.items.length = d.length := rfl
  rw [length, items_shrink, List.length_drop]
  omega

theorem get_of_get_shrink {n : Nat} (h : (d.shrink n).get k = some a) : d.get k = some a := by
  rw [get_eq_some, items_shrink] at h
  exact get_eq_some.mpr (List.mem_of_mem_drop h)

/-- What was put last is the last to go. -/
theorem get_shrink_putLast {n : Nat} (hn : 0 < n) :
    ((d.putLast k a).shrink n).get k = some a := by
  have hlen : (d.putLast k a).length = (d.erase k).items.length + 1 := by
    rw [length, putLast, List.length_append]
    rfl
  have hitems : (d.putLast k a).items = (d.erase k).items ++ [(k, a)] := rfl
  rw [get_eq_some, items_shrink, hlen, hitems, List.drop_append_of_le_length (by omega)]
  exact List.mem_append_right _ List.mem_cons_self

theorem length_moveToEnd_le : (d.moveToEnd k).length ≤ d.length := by
  have hsub : (d.moveToEnd k).items.map Prod.fst ⊆ d.items.map Prod.fst := by
    intro k' hk'
    by_contra hout
    have hnone := get_eq_none.mpr hout
    rw [← get_moveToEnd (k := k)] at hnone
    exact get_eq_none.mp hnone hk'
  have hle := (List.subperm_of_subset (d.moveToEnd k).nodup hsub).length_le
  rwa [List.length_map, List.length_map] at hle

end OrderedDict

/-! ## Touches -/

section
variable {κ α : Type} [DecidableEq κ]

/-- The keys touched since the last touch of `k`. -/
def since (touches : List κ) (k : κ) : Finset κ := (touches.takeWhile (· ≠ k)).toFinset

variable {touches : List κ} {k k' : κ}

@[simp] theorem since_cons_self : since (k :: touches) k = ∅ := by simp [since]

theorem since_cons_of_ne (h : k' ≠ k) : since (k :: touches) k' = insert k (since touches k') := by
  rw [since, List.takeWhile_cons_of_pos (by simpa using Ne.symm h), List.toFinset_cons]
  rfl

theorem since_subset_cons (h : k' ≠ k) : since touches k' ⊆ since (k :: touches) k' := by
  rw [since_cons_of_ne h]
  exact Finset.subset_insert _ _

/-- Behind each key come only keys that were touched since its last touch. -/
def InOrder (touches : List κ) (d : OrderedDict κ α) : Prop :=
  d.items.Pairwise fun p q => q.1 ∈ since touches p.1

namespace InOrder

variable {d d' : OrderedDict κ α} {a : α}

theorem empty : InOrder touches (.empty : OrderedDict κ α) := .nil

/-- A removal keeps the order. -/
theorem sublist (h : InOrder touches d) (hs : d'.items.Sublist d.items) : InOrder touches d' :=
  List.Pairwise.sublist hs h

/-- A touch moves its key to the end. -/
theorem putLast (h : InOrder touches d) : InOrder (k :: touches) (d.putLast k a) := by
  have hrest : InOrder touches (d.erase k) := h.sublist List.filter_sublist
  refine List.pairwise_append.mpr ⟨?_, List.pairwise_singleton _ _, ?_⟩
  · refine List.Pairwise.imp_of_mem ?_ hrest
    intro p q hp _ hpq
    have hne : p.1 ≠ k := by simpa using (List.mem_filter.mp hp).2
    exact since_subset_cons hne hpq
  · intro p hp q hq
    have hne : p.1 ≠ k := by simpa using (List.mem_filter.mp hp).2
    rw [List.mem_singleton.mp hq, since_cons_of_ne hne]
    exact Finset.mem_insert_self _ _

/-- A key that goes was not touched since the `n` others were that stay. -/
theorem le_card_since (h : InOrder touches d) {n : Nat} (hk : (d.get k).isSome)
    (hgone : (d.shrink n).get k = none) : n ≤ (since touches k).card := by
  have hn : n < d.length := by
    by_contra hle
    rw [OrderedDict.shrink_eq, if_neg hle] at hgone
    rw [hgone] at hk
    cases hk
  obtain ⟨b, hb⟩ := Option.isSome_iff_exists.mp hk
  have hmem := OrderedDict.get_eq_some.mp hb
  have hkept : (d.shrink n).items = d.items.drop (d.length - n) := OrderedDict.items_shrink n d
  have hlost := OrderedDict.get_eq_none.mp hgone
  unfold InOrder at h
  rw [← List.take_append_drop (d.length - n) d.items] at h hmem
  rw [← hkept] at h hmem
  -- the key is among the pairs that went, so the others all came behind it
  have hfront := (List.mem_append.mp hmem).resolve_right fun hin =>
    hlost (List.mem_map_of_mem (f := Prod.fst) hin)
  have hsub : ((d.shrink n).items.map Prod.fst).toFinset ⊆ since touches k := by
    intro k' hk'
    obtain ⟨q, hq, rfl⟩ := List.mem_map.mp (List.mem_toFinset.mp hk')
    exact (List.pairwise_append.mp h).2.2 _ hfront q hq
  have hcard := Finset.card_le_card hsub
  rw [List.toFinset_card_of_nodup (d.shrink n).nodup, List.length_map, hkept, List.length_drop]
    at hcard
  have : d.items.length = d.length := rfl
  omega

end InOrder

end

end KnowledgeKiln.Core
