import KnowledgeKiln.Core.Run
import KnowledgeKiln.L1Ingest.Ssrf

/-!
# DNS pins (ingestion/ssrf.py, `pin_dns`)

`pin_dns` replaces `socket.getaddrinfo`, which is one for the whole process, and
puts back what it found there. It looks before it takes the lock: a thread that
enters while another one is inside finds the other one's pin, keeps it for the
hosts it does not pin itself, and leaves it behind.

* `Exclusive`: what holds of any number of threads that enter between blocks.
* `pins_isolated`: in a run without an entry during a block, every block resolves
  its own host to its own addresses and all others by the original resolver, which
  is in place whenever no thread is inside a block.
* `pin_left_behind`: two threads, of which the second enters inside the first one's
  block.
-/
namespace KnowledgeKiln.L1.Ssrf

open KnowledgeKiln.Core

/-- What `socket.getaddrinfo` is bound to. -/
inductive Resolver
  | original
  /-- The `_pinned` of a call of `pin_dns`, with its `real_getaddrinfo`. -/
  | pinned (hostname : Str) (ips : List Str) (real : Resolver)
  deriving DecidableEq

/-- The addresses that a call finds for a host; `dns` is what the original resolver finds. -/
def Resolver.lookup (dns : GetAddrInfo) : Resolver → GetAddrInfo
  | original, host => dns host
  | pinned hostname ips real, host =>
    if host ≠ hostname then real.lookup dns host else .ok ips

/-- Where a thread is in `pin_dns(hostname, ips)`. -/
inductive PinPhase
  | outside
  /-- Before the lock, with the `real_getaddrinfo` it read. -/
  | entered (hostname : Str) (ips : List Str) (real : Resolver)
  | locked (hostname : Str) (ips : List Str) (real : Resolver)
  /-- In the `with` block. -/
  | inside (hostname : Str) (ips : List Str) (real : Resolver)
  | restored
  deriving DecidableEq

def PinPhase.holdsLock : PinPhase → Bool
  | outside | entered _ _ _ => false
  | locked _ _ _ | inside _ _ _ | restored => true

structure Process where
  /-- `socket.getaddrinfo` -/
  getaddrinfo : Resolver
  /-- The thread that holds `_dns_pin_lock`. -/
  lock : Option Nat
  phase : Nat → PinPhase

def Process.start : Process :=
  { getaddrinfo := .original, lock := none, phase := fun _ => .outside }

/-- The steps of `pin_dns`, by thread. A block that raises leaves by `restore` and `release` too. -/
inductive PinEvent
  | enter (t : Nat) (hostname : Str) (ips : List Str)
  | acquire (t : Nat)
  | patch (t : Nat)
  | restore (t : Nat)
  | release (t : Nat)

def Process.setPhase (s : Process) (t : Nat) (p : PinPhase) : Process :=
  { s with phase := Function.update s.phase t p }

/-- One step; an empty list of addresses is refused at the entry. -/
def pinStep (s : Process) : PinEvent → Option Process
  | .enter t hostname ips =>
    match s.phase t with
    | .outside => if ips = [] then some s else some (s.setPhase t (.entered hostname ips s.getaddrinfo))
    | _ => none
  | .acquire t =>
    match s.phase t with
    | .entered hostname ips real =>
      if s.lock = none then some { s.setPhase t (.locked hostname ips real) with lock := some t }
      else none
    | _ => none
  | .patch t =>
    match s.phase t with
    | .locked hostname ips real =>
      some { s.setPhase t (.inside hostname ips real) with getaddrinfo := .pinned hostname ips real }
    | _ => none
  | .restore t =>
    match s.phase t with
    | .inside _ _ real => some { s.setPhase t .restored with getaddrinfo := real }
    | _ => none
  | .release t =>
    match s.phase t with
    | .restored => some { s.setPhase t .outside with lock := none }
    | _ => none

/-- The thread is inside a block. -/
def Process.Active (s : Process) (t : Nat) : Prop :=
  ∃ hostname ips real, s.phase t = .inside hostname ips real

/-- Every block resolves its own host to its own addresses and all others by the original
resolver, which is in place whenever no block is active. -/
def Process.Isolated (s : Process) : Prop :=
  (∀ t hostname ips real, s.phase t = .inside hostname ips real → ∀ dns host,
    s.getaddrinfo.lookup dns host = if host = hostname then .ok ips else dns host) ∧
  ((∀ t, ¬s.Active t) → s.getaddrinfo = .original)

/-- A thread enters only while no other thread is inside a block. A call without addresses raises
before it reads the resolver. -/
def EntersBetweenBlocks (s : Process) : PinEvent → Prop
  | .enter _ _ ips => ips = [] ∨ ∀ t, ¬s.Active t
  | _ => True

/-! ## Runs -/

/-- The thread found the original resolver, and `g` is what its phase asks for. -/
def PinPhase.Ok (g : Resolver) : PinPhase → Prop
  | outside | restored => True
  | entered _ _ real => real = .original
  | locked _ _ real => real = .original ∧ g = .original
  | inside hostname ips real => real = .original ∧ g = .pinned hostname ips .original

structure Exclusive (s : Process) : Prop where
  lock : ∀ t, (s.phase t).holdsLock = true ↔ s.lock = some t
  ok : ∀ t, (s.phase t).Ok s.getaddrinfo
  free : (∀ t, ¬s.Active t) → s.getaddrinfo = .original

section
variable {s s' : Process} {t : Nat} {p : PinPhase} {g : Resolver} {l : Option Nat}

@[simp] theorem Process.setPhase_phase (u : Nat) :
    (s.setPhase t p).phase u = if u = t then p else s.phase u := by
  simp [Process.setPhase, Function.update_apply]

@[simp] theorem Process.setPhase_lock : (s.setPhase t p).lock = s.lock := rfl

@[simp] theorem Process.setPhase_getaddrinfo : (s.setPhase t p).getaddrinfo = s.getaddrinfo := rfl

/-- Only who holds the lock depends on the resolver. -/
theorem PinPhase.Ok.of_not_holding (h : p.Ok g) (hp : p.holdsLock = false) (g' : Resolver) :
    p.Ok g' := by
  cases p with
  | outside => trivial
  | entered _ _ _ => exact h
  | locked _ _ _ => cases hp
  | inside _ _ _ => cases hp
  | restored => cases hp

theorem Process.Active.holdsLock (h : s.Active t) : (s.phase t).holdsLock = true := by
  obtain ⟨_, _, _, h⟩ := h
  rw [h]
  rfl

theorem exclusive_start : Exclusive Process.start where
  lock t := by simp [Process.start, PinPhase.holdsLock]
  ok _ := trivial
  free _ := rfl

theorem Exclusive.isolated (h : Exclusive s) : s.Isolated := by
  refine ⟨fun t hostname ips real ht dns host => ?_, h.free⟩
  have hok := h.ok t
  rw [ht] at hok
  rw [hok.2]
  by_cases he : host = hostname
  · simp [Resolver.lookup, he]
  · simp [Resolver.lookup, he]

theorem Exclusive.not_holding (h : Exclusive s) (ht : s.lock = some t) {u : Nat} (hu : u ≠ t) :
    (s.phase u).holdsLock = false := by
  rw [Bool.eq_false_iff]
  intro hl
  rw [(h.lock u).mp hl] at ht
  exact hu (Option.some.inj ht)

/-- A thread that takes, has or gives up the lock moves on. -/
theorem Exclusive.move (h : Exclusive s) (hother : ∀ u, u ≠ t → (s.phase u).holdsLock = false)
    (hlock : p.holdsLock = true ↔ l = some t) (hl : ∀ u, u ≠ t → l ≠ some u) (hp : p.Ok g)
    (hfree : (∀ hostname ips real, p ≠ .inside hostname ips real) → g = .original) :
    Exclusive { s.setPhase t p with getaddrinfo := g, lock := l } where
  lock u := by
    by_cases hu : u = t
    · subst hu
      simpa using hlock
    · simp [hu, hother u hu, hl u hu]
  ok u := by
    by_cases hu : u = t
    · subst hu
      simpa using hp
    · simpa [hu] using (h.ok u).of_not_holding (hother u hu) g
  free hn := by
    refine hfree fun hostname ips real he => hn t ⟨hostname, ips, real, ?_⟩
    simpa using he

theorem Exclusive.lock_of_phase (h : Exclusive s) (ht : s.phase t = p) (hp : p.holdsLock = true) :
    s.lock = some t :=
  (h.lock t).mp (by rw [ht]; exact hp)

theorem Exclusive.ok_of_phase (h : Exclusive s) (ht : s.phase t = p) : p.Ok s.getaddrinfo :=
  ht ▸ h.ok t

/-- A thread that has the lock and keeps it moves on. -/
theorem Exclusive.keep (h : Exclusive s) (hlock : s.lock = some t) (hp : p.holdsLock = true)
    (hok : p.Ok g) (hfree : (∀ hostname ips real, p ≠ .inside hostname ips real) → g = .original) :
    Exclusive { s.setPhase t p with getaddrinfo := g } := by
  refine h.move (fun u => h.not_holding hlock) (iff_of_true hp hlock) ?_ hok hfree
  intro u hu he
  rw [Process.setPhase_lock, hlock] at he
  exact hu (Option.some.inj he).symm

variable {hostname : Str} {ips : List Str} {real : Resolver}

/-- Between the blocks the thread finds the original resolver. -/
theorem Exclusive.enter (h : Exclusive s) (ht : s.phase t = .outside)
    (hn : ∀ u, ¬s.Active u) : Exclusive (s.setPhase t (.entered hostname ips s.getaddrinfo)) where
  lock u := by
    by_cases hu : u = t
    · subst hu
      have := h.lock u
      rw [ht] at this
      simpa [PinPhase.holdsLock] using this
    · simpa [hu] using h.lock u
  ok u := by
    by_cases hu : u = t
    · subst hu
      simpa [PinPhase.Ok] using h.free hn
    · simpa [hu] using h.ok u
  free _ := h.free hn

/-- While the lock is free no block is active. -/
theorem Exclusive.acquire (h : Exclusive s) (ht : s.phase t = .entered hostname ips real)
    (hfree : s.lock = none) :
    Exclusive { s.setPhase t (.locked hostname ips real) with lock := some t } := by
  have hother : ∀ u, (s.phase u).holdsLock = false := by
    intro u
    rw [Bool.eq_false_iff]
    intro hl
    rw [(h.lock u).mp hl] at hfree
    cases hfree
  have hnone : ∀ u, ¬s.Active u := fun u hu => by
    have := hu.holdsLock
    rw [hother u] at this
    cases this
  refine h.move (fun u _ => hother u) (by simp [PinPhase.holdsLock]) ?_
    ⟨h.ok_of_phase ht, h.free hnone⟩ fun _ => h.free hnone
  intro u hu he
  exact hu (Option.some.inj he).symm

theorem Exclusive.patch (h : Exclusive s) (ht : s.phase t = .locked hostname ips real) :
    Exclusive { s.setPhase t (.inside hostname ips real) with
      getaddrinfo := .pinned hostname ips real } := by
  obtain ⟨hreal, -⟩ := h.ok_of_phase ht
  exact h.keep (h.lock_of_phase ht rfl) rfl ⟨hreal, by rw [hreal]⟩ fun hn => absurd rfl (hn _ _ _)

theorem Exclusive.restore (h : Exclusive s) (ht : s.phase t = .inside hostname ips real) :
    Exclusive { s.setPhase t .restored with getaddrinfo := real } :=
  h.keep (h.lock_of_phase ht rfl) rfl trivial fun _ => (h.ok_of_phase ht).1

theorem Exclusive.release (h : Exclusive s) (ht : s.phase t = .restored) :
    Exclusive { s.setPhase t .outside with lock := none } := by
  have hlock : s.lock = some t := h.lock_of_phase ht rfl
  have hnone : ∀ u, ¬s.Active u := by
    intro u hu
    by_cases hut : u = t
    · obtain ⟨_, _, _, hu⟩ := hu
      rw [hut, ht] at hu
      cases hu
    · have hl := hu.holdsLock
      rw [h.not_holding hlock hut] at hl
      cases hl
  refine h.move (fun u => h.not_holding hlock) (by simp [PinPhase.holdsLock]) ?_ trivial
    fun _ => h.free hnone
  intro u _ he
  cases he

theorem Exclusive.step {e : PinEvent} (h : Exclusive s) (he : EntersBetweenBlocks s e)
    (hs : pinStep s e = some s') : Exclusive s' := by
  cases e with
  | enter t hostname ips =>
    simp only [pinStep] at hs
    split at hs
    · rename_i ht
      split at hs
      · cases hs
        exact h
      · rename_i hne
        cases hs
        exact h.enter ht (he.resolve_left hne)
    · cases hs
  | acquire t =>
    simp only [pinStep] at hs
    split at hs
    · rename_i hostname ips real ht
      obtain ⟨hfree, hs⟩ := Option.ite_none_right_eq_some.mp hs
      cases hs
      exact h.acquire ht hfree
    · cases hs
  | patch t =>
    simp only [pinStep] at hs
    split at hs
    · rename_i ht
      cases hs
      exact h.patch ht
    · cases hs
  | restore t =>
    simp only [pinStep] at hs
    split at hs
    · rename_i ht
      cases hs
      exact h.restore ht
    · cases hs
  | release t =>
    simp only [pinStep] at hs
    split at hs
    · rename_i ht
      cases hs
      exact h.release ht
    · cases hs

end

/-- **Pins are isolated between blocks.** For any number of threads and any order of their steps:
if no thread enters `pin_dns` with an address while another one is inside its block, then in every
state every block resolves its own host to its own addresses and all others by the original
resolver, which is in place whenever no block is active. -/
theorem pins_isolated (es : List PinEvent) (s : Process)
    (hguard : Guarded pinStep EntersBetweenBlocks Process.start es)
    (h : exec pinStep Process.start es = some s) : s.Isolated :=
  (exec_invariant (I := Exclusive) (fun _ _ _ hi he hs => hi.step he hs) exclusive_start hguard
    h).isolated

/-- The state behind a list of steps that are possible. -/
def Process.after (es : List PinEvent) : Process := (exec pinStep .start es).getD .start

/-- Two threads enter before the first of them takes the lock, and a third one, with no address, is
refused inside the first one's block. -/
def inTurn : List PinEvent :=
  [.enter 0 "a.example" ["1.1.1.1".toList], .enter 1 "b.example" ["8.8.8.8".toList],
    .acquire 0, .patch 0, .enter 2 "c.example" [], .restore 0, .release 0, .acquire 1, .patch 1]

theorem pins_isolated_inTurn : (Process.after inTurn).Isolated := by
  refine pins_isolated inTurn _ ?_ rfl
  refine .cons ?_ rfl (.cons ?_ rfl (guarded_of_forall ?_))
  · refine .inr fun t hactive => ?_
    obtain ⟨_, _, _, ht⟩ := hactive
    cases ht
  · refine .inr fun t hactive => ?_
    obtain ⟨_, _, _, ht⟩ := hactive
    by_cases h0 : t = 0
    · subst h0
      cases ht
    · rw [Process.setPhase_phase, if_neg h0] at ht
      cases ht
  · intro s e he
    simp only [List.mem_cons, List.not_mem_nil, or_false] at he
    rcases he with rfl | rfl | rfl | rfl | rfl | rfl | rfl
    · trivial
    · trivial
    · exact .inl rfl
    all_goals trivial

/-- The second thread reads the resolver inside the first one's block. -/
def overlapping : List PinEvent :=
  [.enter 0 "a.example" ["1.1.1.1".toList], .acquire 0, .patch 0,
    .enter 1 "b.example" ["8.8.8.8".toList], .restore 0, .release 0, .acquire 1, .patch 1]

/-- Inside its block it resolves the first one's host by the first one's pin, and it leaves that
pin behind when both have left. -/
theorem pin_left_behind :
    (∃ s, exec pinStep .start overlapping = some s ∧ s.Active 1 ∧
      (∀ dns, s.getaddrinfo.lookup dns "a.example" = .ok ["1.1.1.1".toList]) ∧ ¬s.Isolated) ∧
    ∃ s, exec pinStep .start (overlapping ++ [.restore 1, .release 1]) = some s ∧
      (∀ t, ¬s.Active t) ∧
      s.getaddrinfo = .pinned "a.example" ["1.1.1.1".toList] .original ∧ ¬s.Isolated := by
  have hinactive : ∀ t, ¬(Process.after (overlapping ++ [.restore 1, .release 1])).Active t := by
    rintro t ⟨_, _, _, ht⟩
    by_cases h1 : t = 1
    · subst h1
      cases ht
    · by_cases h0 : t = 0
      · subst h0
        cases ht
      · simp [Process.after, overlapping, exec, pinStep, Process.start, Process.setPhase, h0, h1]
          at ht
  refine ⟨⟨Process.after overlapping, rfl, ⟨_, _, _, rfl⟩, fun _ => rfl, fun h => ?_⟩,
    ⟨Process.after (overlapping ++ [.restore 1, .release 1]), rfl, hinactive, rfl, fun h => ?_⟩⟩
  · have hlookup := h.1 1 "b.example" ["8.8.8.8".toList] _ rfl (fun _ => .ok []) "a.example"
    cases hlookup
  · cases h.2 hinactive

end KnowledgeKiln.L1.Ssrf
