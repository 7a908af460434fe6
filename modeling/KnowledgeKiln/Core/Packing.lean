import Mathlib

/-!
# Greedy packing

A sequence is cut into batches from the front: an item goes into the open batch while the batch
stays within a cap, and opens the next one otherwise. An item heavier than the cap is a batch by
itself.

* `Packs`: what the result looks like, with no word on how it is found.
* `packs_unique`: there is only one such result.
* `packs_pack`: packing finds it.
-/
namespace KnowledgeKiln.Core

variable {α : Type} {weight : α → Nat} {cap : Nat}

/-- The weight of a batch. -/
def batchWeight (weight : α → Nat) (batch : List α) : Nat := (batch.map weight).sum

/-- Each batch is within the cap or a single item, and the item behind it does not fit it. -/
inductive Packs (weight : α → Nat) (cap : Nat) : List α → List (List α) → Prop
  | nil : Packs weight cap [] []
  | cons {batch rest : List α} {batches : List (List α)} (hne : batch ≠ [])
      (hfits : batchWeight weight batch ≤ cap ∨ batch.length = 1)
      (hfull : ∀ a ∈ rest.head?, cap < batchWeight weight batch + weight a)
      (hrest : Packs weight cap rest batches) : Packs weight cap (batch ++ rest) (batch :: batches)

/-- The batches of `items` behind the open batch `buf`. -/
def pack (weight : α → Nat) (cap : Nat) (buf : List α) : List α → List (List α)
  | [] => if buf.isEmpty then [] else [buf]
  | a :: items =>
    if buf.isEmpty = false ∧ cap < batchWeight weight buf + weight a then
      buf :: pack weight cap [a] items
    else pack weight cap (buf ++ [a]) items

theorem batchWeight_append (batch batch' : List α) :
    batchWeight weight (batch ++ batch') =
      batchWeight weight batch + batchWeight weight batch' := by
  simp [batchWeight]

theorem batchWeight_cons (a : α) (batch : List α) :
    batchWeight weight (a :: batch) = weight a + batchWeight weight batch := by
  simp [batchWeight]

theorem batchWeight_singleton (weight : α → Nat) (a : α) : batchWeight weight [a] = weight a := by
  simp [batchWeight]

theorem pack_first (a : α) (items : List α) :
    pack weight cap [] (a :: items) = pack weight cap [a] items := by
  simp [pack]

/-! ## The packing is unique -/

/-- A full batch is not the start of a longer one. -/
theorem not_fits_of_full {batch more : List α} {a : α} (hne : batch ≠ [])
    (hfull : cap < batchWeight weight batch + weight a) :
    ¬ (batchWeight weight (batch ++ a :: more) ≤ cap ∨ (batch ++ a :: more).length = 1) := by
  have hpos := List.length_pos_of_ne_nil hne
  have hweight : batchWeight weight (batch ++ a :: more) =
      batchWeight weight batch + weight a + batchWeight weight more := by
    rw [batchWeight_append, batchWeight_cons, Nat.add_assoc]
  rintro (h | h)
  · omega
  · simp only [List.length_append, List.length_cons] at h
    omega

theorem batch_unique {batch batch' rest rest' : List α} (he : batch ++ rest = batch' ++ rest')
    (hne : batch ≠ []) (hfits : batchWeight weight batch' ≤ cap ∨ batch'.length = 1)
    (hfull : ∀ a ∈ rest.head?, cap < batchWeight weight batch + weight a)
    (hne' : batch' ≠ []) (hfits' : batchWeight weight batch ≤ cap ∨ batch.length = 1)
    (hfull' : ∀ a ∈ rest'.head?, cap < batchWeight weight batch' + weight a) :
    batch = batch' ∧ rest = rest' := by
  rcases List.append_eq_append_iff.mp he with ⟨more, hb, hr⟩ | ⟨more, hb, hr⟩
  · cases more with
    | nil => exact ⟨by simpa using hb.symm, by simpa using hr⟩
    | cons a more =>
      subst hr hb
      exact absurd hfits (not_fits_of_full hne (hfull a rfl))
  · cases more with
    | nil => exact ⟨by simpa using hb, by simpa using hr.symm⟩
    | cons a more =>
      subst hr hb
      exact absurd hfits' (not_fits_of_full hne' (hfull' a rfl))

/-- **There is at most one packing.** -/
theorem packs_unique {items : List α} {batches batches' : List (List α)}
    (h : Packs weight cap items batches) (h' : Packs weight cap items batches') :
    batches = batches' := by
  induction h generalizing batches' with
  | nil =>
    generalize hi : ([] : List α) = items at h'
    cases h' with
    | nil => rfl
    | cons hne => exact absurd (List.append_eq_nil_iff.mp hi.symm).1 hne
  | @cons batch rest batches hne hfits hfull _ ih =>
    generalize hi : batch ++ rest = items at h'
    cases h' with
    | nil => exact absurd (List.append_eq_nil_iff.mp hi).1 hne
    | cons hne' hfits' hfull' hrest' =>
      obtain ⟨rfl, rfl⟩ := batch_unique hi hne hfits' hfull hne' hfits hfull'
      rw [ih hrest']

/-! ## Packing finds it -/

theorem packs_pack_of_open : ∀ (items buf : List α), buf ≠ [] →
    (batchWeight weight buf ≤ cap ∨ buf.length = 1) →
    Packs weight cap (buf ++ items) (pack weight cap buf items)
  | [], buf, hne, hfits => by
    unfold pack
    rw [if_neg (by simpa using hne)]
    exact .cons hne hfits (by simp) .nil
  | a :: items, buf, hne, hfits => by
    unfold pack
    split
    · rename_i hfull
      exact .cons hne hfits (by simpa using hfull.2)
        (packs_pack_of_open items [a] (by simp) (.inr rfl))
    · rename_i hfull
      have hroom : batchWeight weight buf + weight a ≤ cap := by
        by_contra hlt
        exact hfull ⟨by simpa using hne, Nat.lt_of_not_le hlt⟩
      have h := packs_pack_of_open items (buf ++ [a]) (by simp)
        (.inl (by rwa [batchWeight_append, batchWeight_singleton]))
      rwa [List.append_assoc] at h

/-- **Packing packs.** -/
theorem packs_pack (items : List α) : Packs weight cap items (pack weight cap [] items) := by
  cases items with
  | nil => exact .nil
  | cons a items =>
    rw [pack_first]
    exact packs_pack_of_open items [a] (by simp) (.inr rfl)

theorem packs_iff {items : List α} {batches : List (List α)} :
    Packs weight cap items batches ↔ batches = pack weight cap [] items :=
  ⟨fun h => packs_unique h (packs_pack items), fun h => h ▸ packs_pack items⟩

/-- The open batch is at the start of the first one, and the others are cut from the items. -/
theorem pack_eq_cons : ∀ (items : List α) {buf : List α}, buf ≠ [] →
    ∃ taken batches, pack weight cap buf items = (buf ++ taken) :: batches ∧
      taken ++ batches.flatten = items
  | [], buf, hne => by
    unfold pack
    rw [if_neg (by simpa using hne)]
    exact ⟨[], [], by rw [List.append_nil], rfl⟩
  | a :: items, buf, hne => by
    unfold pack
    split
    · obtain ⟨taken, batches, hp, hi⟩ := pack_eq_cons items (List.cons_ne_nil a [])
      refine ⟨[], _, by rw [List.append_nil], ?_⟩
      rw [hp, List.nil_append, List.flatten_cons, List.append_assoc, hi]
      rfl
    · obtain ⟨taken, batches, hp, hi⟩ := pack_eq_cons items (show buf ++ [a] ≠ [] by simp)
      refine ⟨a :: taken, batches, ?_, congrArg (a :: ·) hi⟩
      rw [hp, List.append_assoc]
      rfl

/-- Two items within the cap open the first batch together. -/
theorem pack_pair {a b : α} (items : List α) (h : weight a + weight b ≤ cap) :
    ∃ taken batches, pack weight cap [] (a :: b :: items) = ([a, b] ++ taken) :: batches ∧
      taken ++ batches.flatten = items := by
  have hopen : pack weight cap [] (a :: b :: items) = pack weight cap [a, b] items := by
    rw [pack_first, pack, if_neg]
    · rfl
    · rw [batchWeight_singleton]
      omega
  rw [hopen]
  exact pack_eq_cons items (List.cons_ne_nil a [b])

theorem Packs.fits {items : List α} {batches : List (List α)} (h : Packs weight cap items batches) :
    ∀ batch ∈ batches, batch ≠ [] ∧ (batchWeight weight batch ≤ cap ∨ batch.length = 1) := by
  induction h with
  | nil => simp
  | cons hne hfits _ _ ih => exact List.forall_mem_cons.mpr ⟨⟨hne, hfits⟩, ih⟩

theorem Packs.flatten {items : List α} {batches : List (List α)}
    (h : Packs weight cap items batches) : batches.flatten = items := by
  induction h with
  | nil => rfl
  | cons _ _ _ _ ih => rw [List.flatten_cons, ih]

end KnowledgeKiln.Core
