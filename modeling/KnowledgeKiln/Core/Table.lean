import KnowledgeKiln.Core.Py
import KnowledgeKiln.Core.Schema

/-!
# Tables with a primary key and a unique constraint

A `Table κ α` holds rows whose ids and whose keys are pairwise distinct, as a
relational table with a generated primary key and one `UNIQUE` constraint
does. `upsert` is `INSERT … ON CONFLICT (key) DO UPDATE … RETURNING id`,
`delete` is `DELETE … WHERE`.

* `find_eq_some`: looking a key up is membership.
* `mem_upsert`: an upsert replaces the row of its key, keeping its id, or adds one
  under a fresh id.
* `find_upsert_self`, `find_upsert_of_ne`, `find_delete`: the same by key.
* `value_upsertAll`: a series of upserts overlays the table with a dictionary.
* `upsertAs_idFor`: an upsert under an id generated beforehand.
-/
namespace KnowledgeKiln.Core

structure Row (κ α : Type) where
  id : Uuid
  key : κ
  value : α

structure Table (κ α : Type) where
  rows : List (Row κ α)
  /-- The id of the next row to be inserted. -/
  next : Uuid
  ids_nodup : (rows.map (·.id)).Nodup
  keys_nodup : (rows.map (·.key)).Nodup
  id_lt : ∀ r ∈ rows, r.id < next

namespace Table

variable {κ α : Type}

def empty : Table κ α := ⟨[], 0, List.nodup_nil, List.nodup_nil, by simp⟩

theorem eq_of_id {t : Table κ α} {r s : Row κ α} (hr : r ∈ t.rows) (hs : s ∈ t.rows)
    (h : r.id = s.id) : r = s := List.inj_on_of_nodup_map t.ids_nodup hr hs h

theorem eq_of_key {t : Table κ α} {r s : Row κ α} (hr : r ∈ t.rows) (hs : s ∈ t.rows)
    (h : r.key = s.key) : r = s := List.inj_on_of_nodup_map t.keys_nodup hr hs h

/-- `DELETE … WHERE p` -/
def delete (t : Table κ α) (p : Row κ α → Bool) : Table κ α where
  rows := t.rows.filter fun r => !p r
  next := t.next
  ids_nodup := t.ids_nodup.sublist (List.filter_sublist.map _)
  keys_nodup := t.keys_nodup.sublist (List.filter_sublist.map _)
  id_lt := fun r hr => t.id_lt r (List.mem_of_mem_filter hr)

theorem mem_delete {t : Table κ α} {p : Row κ α → Bool} {r : Row κ α} :
    r ∈ (t.delete p).rows ↔ r ∈ t.rows ∧ p r = false := by
  simp [delete]

theorem ext_rows {t t' : Table κ α} (hr : t.rows = t'.rows) (hn : t.next = t'.next) : t = t' := by
  obtain ⟨rows, next, _, _, _⟩ := t
  obtain ⟨rows', next', _, _, _⟩ := t'
  subst hr
  subst hn
  rfl

theorem delete_eq_self {t : Table κ α} {p : Row κ α → Bool} (h : ∀ r ∈ t.rows, p r = false) :
    t.delete p = t :=
  ext_rows (List.filter_eq_self.mpr fun r hr => by simp [h r hr]) rfl

theorem delete_false (t : Table κ α) : (t.delete fun _ => false) = t := delete_eq_self fun _ _ => rfl

theorem nodup_concat {l : List (Row κ α)} {β : Type} {f : Row κ α → β} {r : Row κ α}
    (hl : (l.map f).Nodup) (hr : ∀ s ∈ l, f s ≠ f r) : ((l ++ [r]).map f).Nodup := by
  rw [List.map_append, List.map_singleton, List.nodup_append]
  refine ⟨hl, by simp, ?_⟩
  rintro _ hs _ h rfl
  obtain ⟨s, hs, he⟩ := List.mem_map.mp hs
  exact hr s hs (he.trans (List.mem_singleton.mp h))

variable [DecidableEq κ]

/-- `SELECT … WHERE key = k` -/
def find (t : Table κ α) (k : κ) : Option (Row κ α) := t.rows.find? (·.key = k)

/-- The id under which `k` is stored after an upsert. -/
def idFor (t : Table κ α) (k : κ) : Uuid :=
  match t.find k with
  | some r => r.id
  | none => t.next

/-- The rows, with `v` under `k`. -/
def replaceRows (k : κ) (v : α) (rows : List (Row κ α)) : List (Row κ α) :=
  rows.map fun r => if r.key = k then { r with value := v } else r

theorem mem_of_find {t : Table κ α} {k : κ} {r : Row κ α} (h : t.find k = some r) :
    r ∈ t.rows ∧ r.key = k :=
  ⟨List.mem_of_find?_eq_some h, by simpa using List.find?_some h⟩

theorem find_eq_some {t : Table κ α} {k : κ} {r : Row κ α} :
    t.find k = some r ↔ r ∈ t.rows ∧ r.key = k := by
  refine ⟨mem_of_find, fun ⟨hr, hk⟩ => ?_⟩
  cases h : t.find k with
  | none =>
    have := List.find?_eq_none.mp h r hr
    simp [hk] at this
  | some s =>
    obtain ⟨hs, hks⟩ := mem_of_find h
    rw [eq_of_key hs hr (hks.trans hk.symm)]

theorem find_eq_none {t : Table κ α} {k : κ} : t.find k = none ↔ ∀ r ∈ t.rows, r.key ≠ k := by
  simp [find]

@[simp] theorem map_id_replaceRows (k : κ) (v : α) (rows : List (Row κ α)) :
    (replaceRows k v rows).map (·.id) = rows.map (·.id) := by
  rw [replaceRows, List.map_map]
  refine List.map_congr_left fun r _ => ?_
  simp only [Function.comp]
  split <;> rfl

@[simp] theorem map_key_replaceRows (k : κ) (v : α) (rows : List (Row κ α)) :
    (replaceRows k v rows).map (·.key) = rows.map (·.key) := by
  rw [replaceRows, List.map_map]
  refine List.map_congr_left fun r _ => ?_
  simp only [Function.comp]
  split <;> rfl

/-- `INSERT … ON CONFLICT (key) DO UPDATE`: the key's row gets the value, and keeps its id. -/
def upsert (t : Table κ α) (k : κ) (v : α) : Table κ α :=
  match h : t.find k with
  | some _ =>
    { rows := replaceRows k v t.rows
      next := t.next
      ids_nodup := by simpa using t.ids_nodup
      keys_nodup := by simpa using t.keys_nodup
      id_lt := by
        intro r hr
        obtain ⟨s, hs, rfl⟩ := List.mem_map.mp hr
        have := t.id_lt s hs
        split <;> exact this }
  | none =>
    { rows := t.rows ++ [⟨t.next, k, v⟩]
      next := t.next + 1
      ids_nodup := nodup_concat t.ids_nodup fun s hs => (t.id_lt s hs).ne
      keys_nodup := nodup_concat t.keys_nodup (find_eq_none.mp h)
      id_lt := by
        intro r hr
        rcases List.mem_append.mp hr with hr | hr
        · exact (t.id_lt r hr).trans (Nat.lt_succ_self _)
        · rw [List.mem_singleton.mp hr]
          exact Nat.lt_succ_self _ }

variable {t : Table κ α} {k k' : κ} {v : α}

theorem mem_upsert {r : Row κ α} : r ∈ (t.upsert k v).rows ↔
    r = ⟨t.idFor k, k, v⟩ ∨ (r ∈ t.rows ∧ r.key ≠ k) := by
  unfold upsert idFor
  split
  · rename_i old h
    obtain ⟨hold, hkey⟩ := find_eq_some.mp h
    simp only [h, replaceRows, List.mem_map]
    constructor
    · rintro ⟨s, hs, rfl⟩
      by_cases hk : s.key = k
      · rw [if_pos hk]
        have : s = old := eq_of_key hs hold (hk.trans hkey.symm)
        subst this
        exact .inl (by rw [← hk])
      · rw [if_neg hk]
        exact .inr ⟨hs, hk⟩
    · rintro (rfl | ⟨hr, hk⟩)
      · exact ⟨old, hold, by rw [if_pos hkey, ← hkey]⟩
      · exact ⟨r, hr, if_neg hk⟩
  · rename_i h
    simp only [h, List.mem_append, List.mem_singleton]
    constructor
    · rintro (hr | rfl)
      · exact .inr ⟨hr, find_eq_none.mp h r hr⟩
      · exact .inl rfl
    · rintro (rfl | ⟨hr, -⟩)
      · exact .inr rfl
      · exact .inl hr

theorem find_upsert_self : (t.upsert k v).find k = some ⟨t.idFor k, k, v⟩ :=
  find_eq_some.mpr ⟨mem_upsert.mpr (.inl rfl), rfl⟩

theorem find_upsert_of_ne (h : k' ≠ k) : (t.upsert k v).find k' = t.find k' := by
  refine Option.ext fun r => ?_
  rw [find_eq_some, find_eq_some, mem_upsert]
  constructor
  · rintro ⟨rfl | ⟨hr, -⟩, hk⟩
    · exact absurd hk h.symm
    · exact ⟨hr, hk⟩
  · rintro ⟨hr, rfl⟩
    exact ⟨.inr ⟨hr, h⟩, rfl⟩

theorem find_delete {p : Row κ α → Bool} :
    (t.delete p).find k = (t.find k).filter fun r => !p r := by
  refine Option.ext fun r => ?_
  rw [find_eq_some, mem_delete, Option.filter_eq_some_iff, find_eq_some]
  simp only [Bool.not_eq_true']
  tauto

theorem idFor_of_find {r : Row κ α} (h : t.find k = some r) : t.idFor k = r.id := by
  rw [idFor, h]

theorem next_le_upsert : t.next ≤ (t.upsert k v).next := by
  unfold upsert
  split
  · exact Nat.le_refl _
  · exact Nat.le_succ _

/-- Writing what is stored changes nothing. -/
theorem upsert_eq_self {r : Row κ α} (h : t.find k = some r) (hv : r.value = v) :
    t.upsert k v = t := by
  have hrows : replaceRows k v t.rows = t.rows := by
    refine (List.map_congr_left fun s hs => ?_).trans (List.map_id' t.rows)
    split
    · rename_i hk
      have : s = r := eq_of_key hs (mem_of_find h).1 (hk.trans (mem_of_find h).2.symm)
      subst this
      rw [← hv]
    · rfl
  unfold upsert
  split
  · exact ext_rows hrows rfl
  · rename_i hnone
    rw [h] at hnone
    cases hnone

/-- The id of a new key is that of no stored row. -/
theorem ne_idFor (h : t.find k = none) {r : Row κ α} (hr : r ∈ t.rows) : r.id ≠ t.idFor k := by
  rw [idFor, h]
  exact (t.id_lt r hr).ne

/-! ## A series of upserts -/

/-- The value stored under `k`. -/
def value (t : Table κ α) (k : κ) : Option α := (t.find k).map (·.value)

def upsertAll (t : Table κ α) (l : List (κ × α)) : Table κ α :=
  l.foldl (fun t p => t.upsert p.1 p.2) t

theorem value_eq_some : t.value k = some v ↔ ∃ r ∈ t.rows, r.key = k ∧ r.value = v := by
  simp only [value, Option.map_eq_some_iff, find_eq_some, and_assoc]

theorem value_upsert : (t.upsert k v).value k' = if k' = k then some v else t.value k' := by
  split
  · subst k'
    rw [value, find_upsert_self]
    rfl
  · rename_i h
    rw [value, find_upsert_of_ne h, value]

theorem value_delete {p : Row κ α → Bool} (h : ∀ r ∈ t.rows, r.key = k → p r = false) :
    (t.delete p).value k = t.value k := by
  unfold value
  rw [find_delete]
  cases hf : t.find k with
  | none => rfl
  | some r =>
    obtain ⟨hr, hk⟩ := find_eq_some.mp hf
    simp [Option.filter, h r hr hk]

theorem value_delete_eq_none {p : Row κ α → Bool} (h : ∀ r ∈ t.rows, r.key = k → p r = true) :
    (t.delete p).value k = none := by
  unfold value
  rw [find_delete]
  cases hf : t.find k with
  | none => rfl
  | some r =>
    obtain ⟨hr, hk⟩ := find_eq_some.mp hf
    simp [Option.filter, h r hr hk]

theorem mem_upsertAll : ∀ {l : List (κ × α)} {t : Table κ α} {r : Row κ α},
    r ∈ (t.upsertAll l).rows → r ∈ t.rows ∨ (r.key, r.value) ∈ l
  | [], _, _, h => .inl h
  | (k', v) :: l, t, r, h => by
    rcases mem_upsertAll (l := l) h with h | h
    · rcases mem_upsert.mp h with rfl | ⟨h, -⟩
      · exact .inr List.mem_cons_self
      · exact .inl h
    · exact .inr (List.mem_cons_of_mem _ h)

/-- A row under none of the written keys is there exactly when it was before. -/
theorem mem_upsertAll_of_not_mem : ∀ {l : List (κ × α)} {t : Table κ α} {r : Row κ α},
    r.key ∉ l.map Prod.fst → (r ∈ (t.upsertAll l).rows ↔ r ∈ t.rows)
  | [], _, _, _ => Iff.rfl
  | (k', v) :: l, t, r, h => by
    rw [List.map_cons, List.mem_cons, not_or] at h
    have ih : r ∈ ((t.upsert k' v).upsertAll l).rows ↔ r ∈ (t.upsert k' v).rows :=
      mem_upsertAll_of_not_mem h.2
    have hne : r ≠ ⟨t.idFor k', k', v⟩ := fun e => h.1 (by rw [e])
    rw [show t.upsertAll ((k', v) :: l) = (t.upsert k' v).upsertAll l from rfl, ih, mem_upsert]
    simp [hne, h.1]

/-- A series of upserts keeps ids, and takes new ones from `next` on. -/
theorem id_upsertAll : ∀ {l : List (κ × α)} {t : Table κ α} {r : Row κ α},
    (t.upsertAll l).find k = some r →
      (t.find k).map (·.id) = some r.id ∨ t.find k = none ∧ t.next ≤ r.id
  | [], t, r, h => by
    rw [show t.upsertAll [] = t from rfl] at h
    exact .inl (by rw [h, Option.map_some])
  | (k', v) :: l, t, r, h => by
    have ih : ((t.upsert k' v).find k).map (·.id) = some r.id ∨
        (t.upsert k' v).find k = none ∧ (t.upsert k' v).next ≤ r.id := id_upsertAll h
    by_cases hk : k = k'
    · subst hk
      rw [find_upsert_self] at ih
      obtain hid | ⟨hnone, -⟩ := ih
      · rw [Option.map_some, Option.some.injEq] at hid
        rw [← hid]
        dsimp only
        unfold idFor
        split
        · rename_i old hold
          exact .inl (by rw [hold, Option.map_some])
        · rename_i hnone
          exact .inr ⟨hnone, Nat.le_refl _⟩
      · cases hnone
    · rw [find_upsert_of_ne hk] at ih
      exact ih.imp_right fun ⟨hnone, hle⟩ => ⟨hnone, next_le_upsert.trans hle⟩

theorem next_le_upsertAll : ∀ {l : List (κ × α)} {t : Table κ α}, t.next ≤ (t.upsertAll l).next
  | [], _ => Nat.le_refl _
  | (_, _) :: _, _ => next_le_upsert.trans next_le_upsertAll

theorem value_upsertAll : ∀ {l : List (κ × α)} {t : Table κ α},
    (t.upsertAll l).value k = (lookupLast l k).or (t.value k)
  | [], _ => rfl
  | (k', v) :: l, t => by
    have ih : ((t.upsert k' v).upsertAll l).value k =
        (lookupLast l k).or ((t.upsert k' v).value k) := value_upsertAll
    rw [show t.upsertAll ((k', v) :: l) = (t.upsert k' v).upsertAll l from rfl, ih, value_upsert,
      lookupLast_cons, Option.or_assoc]
    split <;> simp

/-! ## Generated ids -/

/-- `upsert`, where the database generated `id` for the row should it be new. A generated id that
is taken already changes nothing. -/
def upsertAs (t : Table κ α) (id : Uuid) (k : κ) (v : α) : Table κ α :=
  if hk : t.find k = none then
    if hid : ∃ r ∈ t.rows, r.id = id then t
    else
      { rows := t.rows ++ [⟨id, k, v⟩]
        next := max t.next (id + 1)
        ids_nodup := nodup_concat t.ids_nodup fun r hr he => hid ⟨r, hr, he⟩
        keys_nodup := nodup_concat t.keys_nodup (find_eq_none.mp hk)
        id_lt := by
          intro r hr
          rcases List.mem_append.mp hr with hr | hr
          · exact (t.id_lt r hr).trans_le (Nat.le_max_left _ _)
          · rw [List.mem_singleton.mp hr]
            exact Nat.lt_of_lt_of_le (Nat.lt_succ_self _) (Nat.le_max_right _ _) }
  else t.upsert k v

theorem mem_upsertAs {id : Uuid} {r : Row κ α} (h : r ∈ (t.upsertAs id k v).rows) :
    r ∈ t.rows ∨ r.value = v := by
  unfold upsertAs at h
  split at h
  · split at h
    · exact .inl h
    · rcases List.mem_append.mp h with h | h
      · exact .inl h
      · rw [List.mem_singleton.mp h]
        exact .inr rfl
  · rcases mem_upsert.mp h with rfl | ⟨h, -⟩
    · exact .inr rfl
    · exact .inl h

/-- With the table's own choice of the id it is `upsert`. -/
theorem upsertAs_idFor : t.upsertAs (t.idFor k) k v = t.upsert k v := by
  unfold upsertAs
  split
  · rename_i hk
    have hid : t.idFor k = t.next := by rw [idFor, hk]
    have hfresh : ¬ ∃ r ∈ t.rows, r.id = t.idFor k := by
      rintro ⟨r, hr, he⟩
      exact ne_idFor hk hr he
    rw [dif_neg hfresh]
    unfold upsert
    split
    · rename_i r h
      rw [hk] at h
      cases h
    · apply ext_rows
      · dsimp only
        rw [hid]
      · dsimp only
        rw [hid]
        exact Nat.max_eq_right (Nat.le_succ _)
  · rfl

end Table

end KnowledgeKiln.Core
