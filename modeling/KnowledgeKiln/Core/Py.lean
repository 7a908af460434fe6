import KnowledgeKiln.Core.Str

/-!
# Exceptions and dictionaries

* `Py α`: a call that returns an `α` or raises. `Py.bind_ok` is the one rule
  the proofs use to take a `do` block apart.
* `Py.mapM`: a loop body that may raise, run over a list
  (`Py.mapM_ok_length`, `Py.mem_of_mapM`).
* `lookupFirst`, `lookupLast`: reading a dictionary that was filled by
  "insert if absent", or by plain assignment.
-/
namespace KnowledgeKiln.Core

/-- The exceptions that leave the modelled functions. -/
inductive PyExc
  /-- `ValueError(msg)` raised by the code itself. -/
  | valueError (msg : Str)
  /-- `RuntimeError(msg)` raised by the code itself. -/
  | runtimeError (msg : Str)
  /-- A Pydantic model refused its arguments. -/
  | validationError (model : Str)
  | overflowError
  | keyError (key : Str)
  | attributeError
  | unicodeDecodeError
  /-- `FrontmatterTooLargeError(msg)` -/
  | frontmatterTooLarge (msg : Str)
  /-- The database refused a value. -/
  | dataError
  /-- Raised by a third party: a tokenizer, a YAML parser, an HTTP client. -/
  | external (what : Str)
  deriving DecidableEq, Repr

/-- A call that may raise. -/
abbrev Py (α : Type) := Except PyExc α

namespace Py

variable {α β : Type}

theorem bind_ok {x : Py α} {f : α → Py β} {b : β} :
    (x >>= f) = .ok b ↔ ∃ a, x = .ok a ∧ f a = .ok b := by
  cases x with
  | ok a => simp [bind, Except.bind]
  | error e => simp [bind, Except.bind]

theorem bind_error {x : Py α} {f : α → Py β} {e : PyExc} :
    (x >>= f) = .error e ↔ x = .error e ∨ ∃ a, x = .ok a ∧ f a = .error e := by
  cases x with
  | ok a => simp [bind, Except.bind]
  | error e => simp [bind, Except.bind]

theorem bind_congr {x : Py α} {f g : α → Py β} (h : ∀ a, x = .ok a → f a = g a) :
    (x >>= f) = (x >>= g) := by
  cases x with
  | ok a => exact h a rfl
  | error e => rfl

@[simp] theorem pure_ok {a b : α} : (pure a : Py α) = .ok b ↔ a = b := by
  simp [pure, Except.pure]

@[simp] theorem throw_ne_ok {e : PyExc} {b : α} : (throw e : Py α) = .ok b ↔ False := by
  simp [throw, throwThe, MonadExceptOf.throw]

theorem exists_of_isOk {x : Py α} (h : x.isOk = true) : ∃ a, x = .ok a := by
  cases x with
  | ok a => exact ⟨a, rfl⟩
  | error e => cases h

theorem exists_of_map_eq {f : α → β} {x : Py α} {b : β} (h : x.map f = .ok b) :
    ∃ a, x = .ok a ∧ f a = b := by
  cases x with
  | ok a => exact ⟨a, rfl, by cases h; rfl⟩
  | error e => cases h

/-- `[f(x) for x in xs]` where `f` may raise. -/
def mapM (f : α → Py β) : List α → Py (List β)
  | [] => .ok []
  | a :: as => do
    let b ← f a
    let bs ← mapM f as
    pure (b :: bs)

@[simp] theorem mapM_nil (f : α → Py β) : mapM f [] = .ok [] := rfl

theorem mapM_cons_ok {f : α → Py β} {a : α} {as : List α} {l : List β} :
    mapM f (a :: as) = .ok l ↔ ∃ b bs, f a = .ok b ∧ mapM f as = .ok bs ∧ l = b :: bs := by
  simp only [mapM, bind_ok, pure_ok]
  constructor
  · rintro ⟨b, hb, bs, hbs, rfl⟩
    exact ⟨b, bs, hb, hbs, rfl⟩
  · rintro ⟨b, bs, hb, hbs, rfl⟩
    exact ⟨b, hb, bs, hbs, rfl⟩

/-- Position by position, a comprehension that returned holds what its body returned. -/
theorem mapM_forall₂ {f : α → Py β} : ∀ {as : List α} {bs : List β}, mapM f as = .ok bs →
    List.Forall₂ (fun a b => f a = .ok b) as bs
  | [], bs, h => by cases h; exact .nil
  | a :: as, l, h => by
    obtain ⟨b, bs, hb, hbs, rfl⟩ := mapM_cons_ok.mp h
    exact .cons hb (mapM_forall₂ hbs)

theorem mem_of_mapM {f : α → Py β} {as : List α} {bs : List β} (h : mapM f as = .ok bs) {b : β}
    (hb : b ∈ bs) : ∃ a ∈ as, f a = .ok b := by
  induction mapM_forall₂ h with
  | nil => cases hb
  | @cons a b' as bs hab _ ih =>
    rcases List.mem_cons.mp hb with rfl | hb
    · exact ⟨a, List.mem_cons_self, hab⟩
    · obtain ⟨_, bs', _, hbs', e⟩ := mapM_cons_ok.mp h
      cases e
      obtain ⟨a', ha', e'⟩ := ih hbs' hb
      exact ⟨a', List.mem_cons_of_mem _ ha', e'⟩

theorem exists_of_mapM {f : α → Py β} {as : List α} {bs : List β} (h : mapM f as = .ok bs) {a : α}
    (ha : a ∈ as) : ∃ b ∈ bs, f a = .ok b := by
  induction mapM_forall₂ h with
  | nil => cases ha
  | @cons a' b as bs hab _ ih =>
    rcases List.mem_cons.mp ha with rfl | ha
    · exact ⟨b, List.mem_cons_self, hab⟩
    · obtain ⟨_, bs', _, hbs', e⟩ := mapM_cons_ok.mp h
      cases e
      obtain ⟨b', hb', e'⟩ := ih hbs' ha
      exact ⟨b', List.mem_cons_of_mem _ hb', e'⟩

/-- A comprehension returns when its body does for every element. -/
theorem mapM_returns_iff {f : α → Py β} {as : List α} :
    (∃ bs, mapM f as = .ok bs) ↔ ∀ a ∈ as, ∃ b, f a = .ok b := by
  constructor
  · rintro ⟨bs, h⟩ a ha
    obtain ⟨b, -, hb⟩ := exists_of_mapM h ha
    exact ⟨b, hb⟩
  · intro h
    induction as with
    | nil => exact ⟨[], rfl⟩
    | cons a as ih =>
      obtain ⟨hhead, htail⟩ := List.forall_mem_cons.mp h
      obtain ⟨b, hb⟩ := hhead
      obtain ⟨bs, hbs⟩ := ih htail
      exact ⟨b :: bs, mapM_cons_ok.mpr ⟨b, bs, hb, hbs, rfl⟩⟩

theorem mapM_ok_length {f : α → Py β} {as : List α} {bs : List β} (h : mapM f as = .ok bs) :
    bs.length = as.length := (mapM_forall₂ h).length_eq.symm

end Py

/-! ## Dictionaries built from rows -/

section Dict
variable {κ α : Type} [DecidableEq κ]

/-- A dictionary filled in order, where a key that is present stays as it is. -/
def lookupFirst (l : List (κ × α)) (k : κ) : Option α := l.lookup k

/-- A dictionary comprehension: a later pair overwrites an earlier one. -/
def lookupLast (l : List (κ × α)) (k : κ) : Option α := l.reverse.lookup k

theorem lookupFirst_isSome {l : List (κ × α)} {k : κ} :
    (lookupFirst l k).isSome = true ↔ k ∈ l.map Prod.fst := by
  unfold lookupFirst
  induction l with
  | nil => simp
  | cons p l ih =>
    obtain ⟨k', a⟩ := p
    by_cases hk : k = k'
    · subst hk; simp
    · have : (k == k') = false := by simpa using hk
      simp [List.lookup_cons, this, ih, hk]

theorem mem_of_lookup {l : List (κ × α)} {k : κ} {a : α} (h : l.lookup k = some a) : (k, a) ∈ l := by
  induction l with
  | nil => simp at h
  | cons p l ih =>
    obtain ⟨k', a'⟩ := p
    by_cases hk : k = k'
    · subst hk
      simp at h
      simp [h]
    · have hb : (k == k') = false := by simpa using hk
      simp only [List.lookup_cons, hb] at h
      exact List.mem_cons_of_mem _ (ih h)

theorem lookupLast_isSome {l : List (κ × α)} {k : κ} :
    (lookupLast l k).isSome = true ↔ k ∈ l.map Prod.fst := by
  have h : (lookupFirst l.reverse k).isSome = true ↔ k ∈ l.reverse.map Prod.fst := lookupFirst_isSome
  rwa [List.map_reverse, List.mem_reverse] at h

theorem mem_of_lookupFirst {l : List (κ × α)} {k : κ} {a : α} (h : lookupFirst l k = some a) :
    (k, a) ∈ l := mem_of_lookup h

theorem mem_of_lookupLast {l : List (κ × α)} {k : κ} {a : α} (h : lookupLast l k = some a) :
    (k, a) ∈ l := by
  simpa using mem_of_lookup h

/-- A pair in front is read where no later pair has its key. -/
theorem lookupLast_cons {l : List (κ × α)} {p : κ × α} {k : κ} :
    lookupLast (p :: l) k = (lookupLast l k).or (if k = p.1 then some p.2 else none) := by
  have hp : [p].lookup k = if k = p.1 then some p.2 else none := by
    obtain ⟨k', a⟩ := p
    by_cases h : k = k'
    · simp [h]
    · have : (k == k') = false := by simpa using h
      simp [List.lookup_cons, h, this]
  unfold lookupLast
  rw [List.reverse_cons, List.lookup_append, hp]

theorem lookupLast_append {l l' : List (κ × α)} {k : κ} :
    lookupLast (l ++ l') k = (lookupLast l' k).or (lookupLast l k) := by
  unfold lookupLast
  rw [List.reverse_append, List.lookup_append]

theorem lookupLast_eq_none {l : List (κ × α)} {k : κ} :
    lookupLast l k = none ↔ k ∉ l.map Prod.fst := by
  rw [← lookupLast_isSome, Bool.not_eq_true, Option.isSome_eq_false_iff, Option.isNone_iff_eq_none]

theorem lookupLast_filter_none {p : κ × α → Bool} {l : List (κ × α)} {k : κ}
    (h : lookupLast l k = none) : lookupLast (l.filter p) k = none := by
  rw [lookupLast_eq_none] at h ⊢
  exact fun hm => h ((List.filter_sublist.map _).subset hm)

/-- A pair that is read is read among the pairs that are kept, if it is one of them. -/
theorem lookupLast_filter {p : κ × α → Bool} {k : κ} {a : α} : ∀ {l : List (κ × α)},
    lookupLast l k = some a → p (k, a) = true → lookupLast (l.filter p) k = some a
  | q :: l, h, hp => by
    rw [lookupLast_cons] at h
    cases hl : lookupLast l k with
    | some b =>
      rw [hl, Option.some_or] at h
      cases h
      have ih := lookupLast_filter hl hp
      by_cases hq : p q = true
      · rw [List.filter_cons_of_pos hq, lookupLast_cons, ih, Option.some_or]
      · rw [List.filter_cons_of_neg hq, ih]
    | none =>
      rw [hl, Option.none_or, Option.ite_none_right_eq_some] at h
      obtain ⟨hk, h⟩ := h
      cases h
      subst hk
      rw [List.filter_cons_of_pos hp, lookupLast_cons, if_pos rfl,
        lookupLast_filter_none hl, Option.none_or]

/-- Renaming the keys one-to-one. -/
theorem lookupLast_map_key {κ' : Type} [DecidableEq κ'] {g : κ → κ'} (hg : g.Injective) {k : κ} :
    ∀ {l : List (κ × α)}, lookupLast (l.map fun p => (g p.1, p.2)) (g k) = lookupLast l k
  | [] => rfl
  | p :: l => by
    rw [List.map_cons, lookupLast_cons, lookupLast_cons, lookupLast_map_key hg]
    simp only [hg.eq_iff]

theorem lookup_of_mem {l : List (κ × α)} (hn : (l.map Prod.fst).Nodup) {k : κ} {a : α}
    (h : (k, a) ∈ l) : l.lookup k = some a := by
  induction l with
  | nil => cases h
  | cons p l ih =>
    obtain ⟨k', a'⟩ := p
    rw [List.map_cons, List.nodup_cons] at hn
    rcases List.mem_cons.mp h with h | h
    · cases h
      simp
    · have hm : k ∈ l.map Prod.fst := List.mem_map.mpr ⟨_, h, rfl⟩
      have hne : k ≠ k' := fun e => hn.1 (e ▸ hm)
      have hb : (k == k') = false := by simpa using hne
      rw [List.lookup_cons, hb]
      exact ih hn.2 h

theorem lookupLast_of_mem {l : List (κ × α)} (hn : (l.map Prod.fst).Nodup) {k : κ} {a : α}
    (h : (k, a) ∈ l) : lookupLast l k = some a := by
  refine lookup_of_mem ?_ (List.mem_reverse.mpr h)
  rw [List.map_reverse]
  exact List.nodup_reverse.mpr hn

/-- What is read depends on the pairs only, if a key has one value. -/
theorem lookup_congr {l l' : List (κ × α)} (hm : ∀ p, p ∈ l ↔ p ∈ l')
    (hf : ∀ k a a', (k, a) ∈ l → (k, a') ∈ l → a = a') (k : κ) : l.lookup k = l'.lookup k := by
  cases h : l.lookup k with
  | none =>
    cases h' : l'.lookup k with
    | none => rfl
    | some a' =>
      have hk : k ∈ l.map Prod.fst := List.mem_map.mpr ⟨_, (hm _).mpr (mem_of_lookup h'), rfl⟩
      have hs : (l.lookup k).isSome = true := lookupFirst_isSome.mpr hk
      rw [h] at hs
      cases hs
  | some a =>
    have ha := mem_of_lookup h
    have hk : k ∈ l'.map Prod.fst := List.mem_map.mpr ⟨_, (hm _).mp ha, rfl⟩
    have hs : (l'.lookup k).isSome = true := lookupFirst_isSome.mpr hk
    obtain ⟨a', h'⟩ := Option.isSome_iff_exists.mp hs
    rw [h', hf k a a' ha ((hm _).mpr (mem_of_lookup h'))]

end Dict

end KnowledgeKiln.Core
