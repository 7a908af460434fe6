import KnowledgeKiln.Core.Py

/-!
# Ordered dictionaries

`collections.OrderedDict`: one value for each key, in the order of insertion,
which `moveToEnd` and `popFirst` work with.

* `get_set`, `get_moveToEnd`, `get_popFirst`: what each operation does to each key.
* `ofPairs`: a dictionary display; it depends on the values one by one (`forall₂_ofPairs`).
-/
namespace KnowledgeKiln.Core

structure OrderedDict (κ α : Type) where
  items : List (κ × α)
  nodup : (items.map Prod.fst).Nodup

namespace OrderedDict

variable {κ α : Type} [DecidableEq κ]

def empty : OrderedDict κ α := ⟨[], List.nodup_nil⟩

/-- `d.get(k)` -/
def get (d : OrderedDict κ α) (k : κ) : Option α := lookupFirst d.items k

/-- `len(d)` -/
def length (d : OrderedDict κ α) : Nat := d.items.length

theorem get_eq_none {d : OrderedDict κ α} {k : κ} : d.get k = none ↔ k ∉ d.items.map Prod.fst := by
  rw [← lookupFirst_isSome, Bool.not_eq_true, Option.isSome_eq_false_iff,
    Option.isNone_iff_eq_none, get]

theorem get_eq_some {d : OrderedDict κ α} {k : κ} {a : α} : d.get k = some a ↔ (k, a) ∈ d.items :=
  ⟨mem_of_lookupFirst, fun h => lookup_of_mem d.nodup h⟩

/-- What is read of a list of pairs, key by key. -/
theorem get_congr {d d' : OrderedDict κ α} {k : κ} (h : ∀ a, (k, a) ∈ d'.items ↔ (k, a) ∈ d.items) :
    d'.get k = d.get k := by
  ext a
  rw [get_eq_some, get_eq_some, h]

/-- The pairs of all other keys, with the pair of `k` at the end. -/
def putLast (d : OrderedDict κ α) (k : κ) (a : α) : OrderedDict κ α where
  items := d.items.filter (fun p => decide (p.1 ≠ k)) ++ [(k, a)]
  nodup := by
    rw [List.map_append, List.nodup_append]
    refine ⟨(List.filter_sublist.map _).nodup d.nodup, by simp, ?_⟩
    intro k' hk' k'' hk'' he
    obtain ⟨p, hp, rfl⟩ := List.mem_map.mp hk'
    have hne := (List.mem_filter.mp hp).2
    simp_all

/-- `d[k] = a`: a key that is present keeps its place. -/
def set (d : OrderedDict κ α) (k : κ) (a : α) : OrderedDict κ α :=
  if k ∈ d.items.map Prod.fst then
    { items := d.items.map fun p => if p.1 = k then (k, a) else p
      nodup := by
        have h : (d.items.map fun p => if p.1 = k then (k, a) else p).map Prod.fst =
            d.items.map Prod.fst := by
          rw [List.map_map]
          refine List.map_congr_left fun p _ => ?_
          by_cases hp : p.1 = k
          · simp [hp]
          · simp [hp]
        rw [h]
        exact d.nodup }
  else d.putLast k a

/-- `d.move_to_end(k)`, for a key that is present. -/
def moveToEnd (d : OrderedDict κ α) (k : κ) : OrderedDict κ α :=
  match d.get k with
  | some a => d.putLast k a
  | none => d

/-- `d.popitem(last=False)`, for a dictionary that is not empty. -/
def popFirst (d : OrderedDict κ α) : OrderedDict κ α where
  items := d.items.tail
  nodup := ((List.tail_sublist d.items).map _).nodup d.nodup

/-- `{k: a for k, a in pairs}` -/
def ofPairs (pairs : List (κ × α)) : OrderedDict κ α := pairs.foldl (fun d p => d.set p.1 p.2) empty

variable {d : OrderedDict κ α} {k k' : κ} {a : α}

@[simp] theorem get_empty : (empty : OrderedDict κ α).get k = none := rfl

theorem get_putLast : (d.putLast k a).get k' = if k' = k then some a else d.get k' := by
  by_cases h : k' = k
  · rw [if_pos h, get_eq_some, h]
    simp [putLast]
  · rw [if_neg h]
    exact get_congr fun b => by simp [putLast, h]

theorem get_set : (d.set k a).get k' = if k' = k then some a else d.get k' := by
  unfold set
  split
  · rename_i hk
    obtain ⟨p, hp, he⟩ := List.mem_map.mp hk
    by_cases h : k' = k
    · rw [if_pos h, get_eq_some, h]
      exact List.mem_map.mpr ⟨p, hp, if_pos he⟩
    · rw [if_neg h]
      refine get_congr fun b => ?_
      simp only [List.mem_map]
      constructor
      · rintro ⟨q, hq, e⟩
        split at e
        · cases e
          exact absurd rfl h
        · rwa [← e]
      · intro hb
        exact ⟨(k', b), hb, if_neg h⟩
  · exact get_putLast

@[simp] theorem get_moveToEnd : (d.moveToEnd k).get k' = d.get k' := by
  unfold moveToEnd
  split
  · rename_i b hb
    rw [get_putLast]
    split
    · rename_i h
      rw [h, hb]
    · rfl
  · rfl

/-- The first pair goes, all others stay. -/
theorem get_popFirst : d.popFirst.get k = d.get k ∨
    d.popFirst.get k = none ∧ ∃ a, d.items.head? = some (k, a) := by
  obtain ⟨items, hn⟩ := d
  cases items with
  | nil => exact .inl rfl
  | cons p ps =>
    by_cases h : p.1 = k
    · refine .inr ⟨?_, p.2, by rw [← h]; rfl⟩
      rw [get_eq_none]
      rw [List.map_cons, List.nodup_cons] at hn
      exact h ▸ hn.1
    · refine .inl (get_congr fun b => ?_)
      simp only [popFirst, List.tail_cons, List.mem_cons]
      constructor
      · exact .inr
      · rintro (e | hb)
        · exact absurd (by rw [← e]) h
        · exact hb

/-! ## Dictionary displays -/

theorem items_set_of_not_mem (h : k ∉ d.items.map Prod.fst) :
    (d.set k a).items = d.items ++ [(k, a)] := by
  have hfilter : d.items.filter (fun p => decide (p.1 ≠ k)) = d.items :=
    List.filter_eq_self.mpr fun p hp =>
      decide_eq_true fun e => h (e ▸ List.mem_map_of_mem hp)
  rw [set, if_neg h, putLast]
  dsimp only
  rw [hfilter]

theorem items_foldl_set : ∀ {pairs : List (κ × α)} {d : OrderedDict κ α},
    ((d.items ++ pairs).map Prod.fst).Nodup →
    (pairs.foldl (fun d p => d.set p.1 p.2) d).items = d.items ++ pairs
  | [], d, _ => (List.append_nil _).symm
  | (k, a) :: pairs, d, h => by
    have hk : k ∉ d.items.map Prod.fst := by
      rw [List.map_append, List.map_cons] at h
      exact fun hm => (List.disjoint_of_nodup_append h) hm List.mem_cons_self
    have hset := items_set_of_not_mem (a := a) hk
    have hsplit : d.items ++ (k, a) :: pairs = (d.set k a).items ++ pairs := by
      rw [hset, List.append_assoc]
      rfl
    rw [List.foldl_cons, hsplit]
    exact items_foldl_set (hsplit ▸ h)

/-- Pairs with different keys stay as they are. -/
theorem items_ofPairs {pairs : List (κ × α)} (h : (pairs.map Prod.fst).Nodup) :
    (ofPairs pairs).items = pairs := items_foldl_set h

/-- The last value of a key is read. -/
theorem get_foldl_set : ∀ {pairs : List (κ × α)} {d : OrderedDict κ α},
    (pairs.foldl (fun d p => d.set p.1 p.2) d).get k = (lookupLast pairs k).or (d.get k)
  | [], d => rfl
  | p :: pairs, d => by
    rw [List.foldl_cons, get_foldl_set, get_set, lookupLast_cons, Option.or_assoc]
    split <;> rfl

theorem get_ofPairs (pairs : List (κ × α)) : (ofPairs pairs).get k = lookupLast pairs k := by
  rw [ofPairs, get_foldl_set, get_empty, Option.or_none]

theorem lookupLast_items : lookupLast d.items k = d.get k := by
  ext a
  rw [get_eq_some]
  exact ⟨mem_of_lookupLast, lookupLast_of_mem d.nodup⟩

section
variable {β : Type} {R : α → β → Prop} {e : OrderedDict κ β} {b : β}

/-- The same keys, and related values. -/
abbrev Related (R : α → β → Prop) (p : κ × α) (q : κ × β) : Prop := p.1 = q.1 ∧ R p.2 q.2

omit [DecidableEq κ] in
theorem keys_eq_of_related : ∀ {l : List (κ × α)} {l' : List (κ × β)},
    List.Forall₂ (Related R) l l' → l.map Prod.fst = l'.map Prod.fst
  | _, _, .nil => rfl
  | _, _, .cons h ht => congrArg₂ List.cons h.1 (keys_eq_of_related ht)

theorem forall₂_map_set (hr : R a b) : ∀ {l : List (κ × α)} {l' : List (κ × β)},
    List.Forall₂ (Related R) l l' → List.Forall₂ (Related R)
      (l.map fun p => if p.1 = k then (k, a) else p) (l'.map fun p => if p.1 = k then (k, b) else p)
  | _, _, .nil => .nil
  | p :: _, q :: _, .cons h ht => by
    refine .cons ?_ (forall₂_map_set hr ht)
    dsimp only
    by_cases hp : p.1 = k
    · rw [if_pos hp, if_pos (h.1 ▸ hp)]
      exact ⟨rfl, hr⟩
    · rw [if_neg hp, if_neg (h.1 ▸ hp)]
      exact h

theorem forall₂_filter_key : ∀ {l : List (κ × α)} {l' : List (κ × β)},
    List.Forall₂ (Related R) l l' → List.Forall₂ (Related R)
      (l.filter fun p => decide (p.1 ≠ k)) (l'.filter fun p => decide (p.1 ≠ k))
  | _, _, .nil => .nil
  | p :: _, q :: _, .cons h ht => by
    by_cases hp : p.1 = k
    · have hq : q.1 = k := h.1 ▸ hp
      rw [List.filter_cons_of_neg (by simp [hp]), List.filter_cons_of_neg (by simp [hq])]
      exact forall₂_filter_key ht
    · have hq : q.1 ≠ k := h.1 ▸ hp
      rw [List.filter_cons_of_pos (by simp [hp]), List.filter_cons_of_pos (by simp [hq])]
      exact .cons h (forall₂_filter_key ht)

theorem forall₂_set (hd : List.Forall₂ (Related R) d.items e.items) (hr : R a b) :
    List.Forall₂ (Related R) (d.set k a).items (e.set k b).items := by
  unfold set
  rw [keys_eq_of_related hd]
  split
  · exact forall₂_map_set hr hd
  · exact List.rel_append (forall₂_filter_key hd) (.cons ⟨rfl, hr⟩ .nil)

theorem forall₂_foldl_set : ∀ {pairs : List (κ × α)} {pairs' : List (κ × β)}
    {d : OrderedDict κ α} {e : OrderedDict κ β}, List.Forall₂ (Related R) pairs pairs' →
    List.Forall₂ (Related R) d.items e.items → List.Forall₂ (Related R)
      (pairs.foldl (fun d p => d.set p.1 p.2) d).items
      (pairs'.foldl (fun d p => d.set p.1 p.2) e).items
  | _, _, _, _, .nil, h => h
  | p :: _, q :: _, _, _, .cons hp ht, h => by
    rw [List.foldl_cons, List.foldl_cons, hp.1]
    exact forall₂_foldl_set ht (forall₂_set h hp.2)

/-- What is read of related pairs is related. -/
theorem lookupLast_related : ∀ {l : List (κ × α)} {l' : List (κ × β)},
    List.Forall₂ (Related R) l l' → Option.Rel R (lookupLast l k) (lookupLast l' k)
  | _, _, .nil => .none
  | p :: l, q :: l', .cons h ht => by
    have ih : Option.Rel R (lookupLast l k) (lookupLast l' k) := lookupLast_related ht
    rw [lookupLast_cons, lookupLast_cons, ← h.1]
    generalize lookupLast l k = x, lookupLast l' k = y at ih ⊢
    cases ih with
    | some hr => exact .some hr
    | none =>
      rw [Option.none_or, Option.none_or]
      split
      · exact .some h.2
      · exact .none

/-- Displays with the same keys and related values are related. -/
theorem forall₂_ofPairs {pairs : List (κ × α)} {pairs' : List (κ × β)}
    (h : List.Forall₂ (Related R) pairs pairs') :
    List.Forall₂ (Related R) (ofPairs pairs).items (ofPairs pairs').items :=
  forall₂_foldl_set h .nil

end

end OrderedDict

end KnowledgeKiln.Core
