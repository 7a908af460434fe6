import KnowledgeKiln.L1Ingest.JobQueue

/-!
# What becomes of a job

`_process` marks a job done whenever `run_source` returns, and it returns after a breached
cap as well. The link of a job to its run is written together with its final status, so a
sweep never finds it on a running job.

* `job_run_agree`: as long as no fetch breaches a cap, jobs and runs agree. A breached cap need
  not end in a disagreement: it can be continued to one.
* `crash_reconciled_iff`: the sweep behind a crash does what it should exactly when the run
  had not completed.
-/
namespace KnowledgeKiln.L1.Worker

open KnowledgeKiln.Core KnowledgeKiln.L1.FileProcessing KnowledgeKiln.L1.Embedding

/-! ## Jobs and runs -/

/-- A job that succeeded links to a run that completed, and a job whose run failed has failed. -/
def Agree (s : System) : Prop :=
  ∀ job ∈ s.jobs,
    (job.status = .succeeded → ∃ runId, job.resultRunId = some runId ∧
      completed s.runs runId = true) ∧
    ∀ runId, job.resultRunId = some runId → s.runs[runId]? = some .failed → job.status = .failed

/-- No fetch breaches a cap. -/
def Uncapped (_ : System) (l : Label) : Prop := ∀ w, l ≠ .endRun w .failed

/-- The job links to completed runs only, and to one if it succeeded. -/
structure Sound (runs : List RunStatus) (job : IngestionJob) : Prop where
  links : ∀ runId, job.resultRunId = some runId → completed runs runId = true
  succeeded : job.status = .succeeded → ∃ runId, job.resultRunId = some runId

/-- What a worker's phase says about jobs and runs. -/
structure Phase.Placed (s : System) (phase : Phase) : Prop where
  job : ∀ c, phase.claim = some c → c.id < s.jobs.length
  running : ∀ c runId, phase = .running c runId → s.runs[runId]? = some .running
  returned : ∀ c runId, phase = .returned c runId → completed s.runs runId = true

structure Linked (s : System) : Prop where
  jobs : ∀ job ∈ s.jobs, Sound s.runs job
  placed : ∀ w, (s.workers w).Placed s
  distinct : ∀ w w' c c' runId, s.workers w = .running c runId →
    s.workers w' = .running c' runId → w = w'

theorem linked_init : Linked {} where
  jobs := by simp
  placed := fun _ => ⟨by simp [Phase.claim], by simp, by simp⟩
  distinct := by simp

section
variable {allowlist : List Source} {s s' : System} {w : Nat} {phase : Phase}
  {jobs : List IngestionJob} {runs : List RunStatus}

theorem completed_lt {runId : Nat} (h : completed runs runId = true) : runId < runs.length := by
  by_contra hlt
  simp [completed, List.getElem?_eq_none (Nat.le_of_not_lt hlt)] at h

theorem completed_append {runId : Nat} {more : List RunStatus} (h : completed runs runId = true) :
    completed (runs ++ more) runId = true := by
  unfold completed
  rw [List.getElem?_append_left (completed_lt h)]
  exact h

/-- Ending a running run leaves the completed ones alone. -/
theorem completed_set {runId runId' : Nat} {status : RunStatus}
    (hr : runs[runId']? = some .running) (h : completed runs runId = true) :
    completed (runs.set runId' status) runId = true := by
  have hne : runId' ≠ runId := by
    intro he
    subst he
    simp [completed, hr] at h
  unfold completed
  rw [List.getElem?_set_ne hne]
  exact h

/-- **Agreement.** Linked systems agree. -/
theorem Linked.agree (hl : Linked s) : Agree s := by
  intro job hjob
  obtain ⟨hlinks, hsucceeded⟩ := hl.jobs job hjob
  refine ⟨fun hs => ?_, fun runId hr hf => ?_⟩
  · obtain ⟨runId, hr⟩ := hsucceeded hs
    exact ⟨runId, hr, hlinks runId hr⟩
  · have := hlinks runId hr
    simp [completed, hf] at this

theorem forall_modify {P : IngestionJob → Prop} {f : IngestionJob → IngestionJob} {id : Nat}
    (h : ∀ job ∈ jobs, P job) (hf : ∀ job, P job → P (f job)) :
    ∀ job ∈ jobs.modify id f, P job := by
  intro job hjob
  obtain ⟨i, hi⟩ := List.mem_iff_getElem?.mp hjob
  by_cases he : i = id
  · subst he
    rw [List.getElem?_modify_eq] at hi
    obtain ⟨old, hold, rfl⟩ := Option.map_eq_some_iff.mp hi
    exact hf old (h old (List.mem_of_getElem? hold))
  · rw [getElem?_modify_of_ne he] at hi
    exact h job (List.mem_of_getElem? hi)

theorem Sound.mono {runs' : List RunStatus} {job : IngestionJob} (h : Sound runs job)
    (hdone : ∀ runId, completed runs runId = true → completed runs' runId = true) :
    Sound runs' job := ⟨fun runId hr => hdone runId (h.links runId hr), h.succeeded⟩

theorem Sound.requeue {job : IngestionJob} (h : Sound runs job) : Sound runs job.requeue :=
  ⟨h.links, by simp [IngestionJob.requeue]⟩

theorem Sound.markDone {job : IngestionJob} {runId : Nat} (h : completed runs runId = true) :
    Sound runs (job.markDone (some runId)) :=
  ⟨fun _ he => by cases he; exact h, fun _ => ⟨runId, rfl⟩⟩

theorem Sound.markFailed {job : IngestionJob} {error : Str} (h : Sound runs job) :
    Sound runs (job.markFailed error) :=
  ⟨h.links, by simp [IngestionJob.markFailed]⟩

theorem Sound.recovered {job : IngestionJob} {link : Option Nat} (h : Sound runs job) :
    Sound runs (recovered runs link job) := by
  unfold Worker.recovered
  cases link with
  | none => exact h.requeue
  | some runId =>
    dsimp only
    split
    · rename_i hc
      exact Sound.markDone hc
    · exact h.requeue

theorem recoverStale_sound {stale : List (Nat × Option Nat)} (h : ∀ job ∈ jobs, Sound runs job) :
    ∀ job ∈ recoverStale runs stale jobs, Sound runs job := by
  induction stale generalizing jobs with
  | nil => exact h
  | cons p stale ih => exact ih (forall_modify h fun job hj => hj.recovered)

theorem recoverStale_length {stale : List (Nat × Option Nat)} :
    (recoverStale runs stale jobs).length = jobs.length := by
  induction stale generalizing jobs with
  | nil => rfl
  | cons p stale ih =>
    refine Eq.trans ih ?_
    rw [List.length_modify]

/-- A worker enters a phase, with jobs and runs that are no worse than before. -/
theorem Linked.enter (hl : Linked s) (hjobs : ∀ job ∈ jobs, Sound runs job)
    (hlen : s.jobs.length ≤ jobs.length)
    (hdone : ∀ runId, completed s.runs runId = true → completed runs runId = true)
    (hruns : ∀ w' ≠ w, ∀ c runId, s.workers w' = .running c runId → runs[runId]? = some .running)
    (hphase : phase.Placed { s with jobs := jobs, runs := runs })
    (hnew : ∀ w' ≠ w, ∀ c c' runId, s.workers w' = .running c runId →
      phase ≠ .running c' runId) :
    Linked ({ s with jobs := jobs, runs := runs }.enter w phase) where
  jobs := hjobs
  placed := by
    intro w'
    by_cases hw : w' = w
    · subst hw
      rw [enter_self]
      exact ⟨hphase.job, hphase.running, hphase.returned⟩
    · rw [enter_of_ne hw]
      obtain ⟨hjob, -, hreturned⟩ := hl.placed w'
      exact ⟨fun c hc => (hjob c hc).trans_le hlen, hruns w' hw,
        fun c runId h => hdone runId (hreturned c runId h)⟩
  distinct := by
    intro w₁ w₂ c₁ c₂ runId h₁ h₂
    by_cases hw₁ : w₁ = w <;> by_cases hw₂ : w₂ = w
    · rw [hw₁, hw₂]
    · subst hw₁
      rw [enter_self] at h₁
      rw [enter_of_ne hw₂] at h₂
      exact absurd h₁ (hnew w₂ hw₂ c₂ c₁ runId h₂)
    · subst hw₂
      rw [enter_of_ne hw₁] at h₁
      rw [enter_self] at h₂
      exact absurd h₂ (hnew w₁ hw₁ c₁ c₂ runId h₁)
    · rw [enter_of_ne hw₁] at h₁
      rw [enter_of_ne hw₂] at h₂
      exact hl.distinct w₁ w₂ c₁ c₂ runId h₁ h₂

/-- The same, with the runs as they are, into a phase outside `run_source`. -/
theorem Linked.enter_jobs (hl : Linked s) (hjobs : ∀ job ∈ jobs, Sound s.runs job)
    (hlen : s.jobs.length ≤ jobs.length)
    (hclaim : ∀ c, phase.claim = some c → c.id < jobs.length)
    (hout : ∀ c runId, phase ≠ .running c runId ∧ phase ≠ .returned c runId) :
    Linked ({ s with jobs := jobs }.enter w phase) :=
  hl.enter hjobs hlen (fun _ h => h) (fun w' _ c runId h => (hl.placed w').running c runId h)
    ⟨hclaim, fun c runId h => absurd h (hout c runId).1, fun c runId h => absurd h (hout c runId).2⟩
    (fun _ _ _ c' runId _ => (hout c' runId).1)

theorem linked_createRun {c : Claim} (hl : Linked s) (hw : s.workers w = .claimed c) :
    Linked ({ s with runs := s.runs ++ [RunStatus.running] }.enter w
      (.running c s.runs.length)) := by
  have hlt : ∀ w' c' runId, s.workers w' = .running c' runId → runId < s.runs.length :=
    fun w' c' runId h => (List.getElem?_eq_some_iff.mp ((hl.placed w').running c' runId h)).1
  refine hl.enter (fun job hj => (hl.jobs job hj).mono fun _ h => completed_append h) (Nat.le_refl _)
    (fun _ h => completed_append h) (fun w' _ c' runId h => ?_) ⟨?_, ?_, by simp⟩ ?_
  · rw [List.getElem?_append_left (hlt w' c' runId h)]
    exact (hl.placed w').running c' runId h
  · intro c' hc'
    cases hc'
    exact (hl.placed w).job c (by rw [hw]; rfl)
  · intro c' runId he
    cases he
    simp
  · intro w' _ c' c'' runId h he
    cases he
    exact absurd (hlt w' c' _ h) (Nat.lt_irrefl _)

theorem linked_endRun {c : Claim} {runId : Nat} {status : RunStatus} (hl : Linked s)
    (hw : s.workers w = .running c runId) (hdone : status = .succeeded ∨ status = .partialSuccess) :
    Linked ({ s with runs := s.runs.set runId status }.enter w (.returned c runId)) := by
  have hrunning := (hl.placed w).running c runId hw
  refine hl.enter (fun job hj => (hl.jobs job hj).mono fun _ h => completed_set hrunning h)
    (Nat.le_refl _) (fun _ h => completed_set hrunning h) (fun w' hw' c' runId' h => ?_)
    ⟨?_, by simp, ?_⟩ (by simp)
  · have hne : runId ≠ runId' := fun he => hw' (hl.distinct w' w c' c runId' h (he ▸ hw))
    rw [List.getElem?_set_ne hne]
    exact (hl.placed w').running c' runId' h
  · intro c' hc'
    cases hc'
    exact (hl.placed w).job c (by rw [hw]; rfl)
  · intro c' runId' he
    cases he
    have hlt := (List.getElem?_eq_some_iff.mp hrunning).1
    unfold completed
    dsimp only
    rw [List.getElem?_set_self hlt]
    rcases hdone with rfl | rfl <;> rfl

/-- **Step.** Whatever the interleaving, a step without a breached cap keeps jobs and runs linked. -/
theorem linked_step (l : Label) (hl : Linked s) (hcap : Uncapped s l)
    (h : step allowlist s l = some s') : Linked s' := by
  cases l with
  | enqueue payload =>
    cases h
    refine ⟨fun job hjob => ?_, fun w => ⟨fun c hc => ?_, (hl.placed w).running,
      (hl.placed w).returned⟩, hl.distinct⟩
    · rcases List.mem_append.mp hjob with hjob | hjob
      · exact hl.jobs job hjob
      · rw [List.mem_singleton.mp hjob]
        exact ⟨by simp, by simp⟩
    · rw [List.length_append]
      exact Nat.lt_add_right _ ((hl.placed w).job c hc)
  | start w =>
    obtain ⟨-, rfl⟩ := step_start.mp h
    exact hl.enter_jobs hl.jobs (Nat.le_refl _) (by simp [Phase.claim]) (by simp)
  | recover w =>
    obtain ⟨stale, -, rfl⟩ := step_recover.mp h
    exact hl.enter_jobs (recoverStale_sound hl.jobs) (Nat.le_of_eq recoverStale_length.symm)
      (by simp [Phase.claim]) (by simp)
  | claim w locked =>
    obtain ⟨-, c, jobs, hc, rfl⟩ := step_claim.mp h
    obtain ⟨-, job, hjob, -, -, -, rfl⟩ := claimOne_some hc
    have hlt := (List.getElem?_eq_some_iff.mp hjob).1
    refine hl.enter_jobs (forall_modify hl.jobs fun job hj => ⟨hj.links, by simp⟩)
      (Nat.le_of_eq (List.length_modify _ _ _).symm) (fun c' hc' => ?_) (by simp)
    cases hc'
    rwa [List.length_modify]
  | createRun w =>
    obtain ⟨c, hw, -, rfl⟩ := step_createRun.mp h
    exact linked_createRun hl hw
  | endRun w status =>
    obtain ⟨c, runId, hw, hne, rfl⟩ := step_endRun.mp h
    refine linked_endRun hl hw ?_
    cases status with
    | running => exact absurd rfl hne
    | succeeded => exact .inl rfl
    | partialSuccess => exact .inr rfl
    | failed => exact absurd rfl (hcap w)
  | raise w error =>
    obtain ⟨c, runId, hp, rfl⟩ := step_raise.mp h
    refine hl.enter_jobs hl.jobs (Nat.le_refl _) (fun c' hc' => ?_) (by simp)
    cases hc'
    exact (hl.placed w).job c (processing_claim hp)
  | cancel w =>
    obtain ⟨c, runId, hp, rfl⟩ := step_cancel.mp h
    refine hl.enter_jobs hl.jobs (Nat.le_refl _) (fun c' hc' => ?_) (by simp)
    cases hc'
    exact (hl.placed w).job c (processing_claim hp)
  | markDone w =>
    obtain ⟨c, runId, hw, rfl⟩ := step_markDone.mp h
    have hc := (hl.placed w).returned c runId hw
    exact hl.enter_jobs (forall_modify hl.jobs fun _ _ => Sound.markDone hc)
      (Nat.le_of_eq (List.length_modify _ _ _).symm) (by simp [Phase.claim]) (by simp)
  | markFailed w =>
    obtain ⟨c, runId, error, cancelled, -, rfl⟩ := step_markFailed.mp h
    split
    · exact hl.enter_jobs hl.jobs (Nat.le_refl _) (by simp [Phase.claim]) (by simp)
    · refine hl.enter_jobs (forall_modify hl.jobs fun _ hj => hj.markFailed)
        (Nat.le_of_eq (List.length_modify _ _ _).symm) ?_ ?_
      · cases cancelled <;> simp [Phase.claim]
      · cases cancelled <;> simp
  | stop w =>
    obtain ⟨-, rfl⟩ := step_stop.mp h
    exact hl.enter_jobs hl.jobs (Nat.le_refl _) (by simp [Phase.claim]) (by simp)
  | crash w =>
    obtain ⟨-, rfl⟩ := step_crash.mp h
    exact hl.enter_jobs hl.jobs (Nat.le_refl _) (by simp [Phase.claim]) (by simp)

theorem linked_exec {es : List Label} (hg : Guarded (step allowlist) Uncapped {} es)
    (h : exec (step allowlist) {} es = some s) : Linked s :=
  exec_invariant (fun _ l _ hl hcap hs => linked_step l hl hcap hs) linked_init hg h

/-- A worker whose fetch breaches a cap marks its job done. -/
theorem capped_disagrees {c : Claim} {runId : Nat} (hl : Linked s)
    (hw : s.workers w = .running c runId) :
    ∃ s', exec (step allowlist) s [.endRun w .failed, .markDone w] = some s' ∧ ¬ Agree s' := by
  let s₁ := { s with runs := s.runs.set runId .failed }.enter w (.returned c runId)
  have hend : step allowlist s (.endRun w .failed) = some s₁ :=
    step_endRun.mpr ⟨c, runId, hw, by simp, rfl⟩
  have hmark : step allowlist s₁ (.markDone w) = some _ :=
    step_markDone.mpr ⟨c, runId, enter_self _ _ _, rfl⟩
  refine ⟨_, exec_cons.mpr ⟨s₁, hend, exec_cons.mpr ⟨_, hmark, rfl⟩⟩, fun hagree => ?_⟩
  have hlt : c.id < s.jobs.length := (hl.placed w).job c (by rw [hw]; rfl)
  have hrun : runId < s.runs.length :=
    (List.getElem?_eq_some_iff.mp ((hl.placed w).running c runId hw)).1
  obtain ⟨job, hjob⟩ : ∃ job, s.jobs[c.id]? = some job := ⟨_, List.getElem?_eq_getElem hlt⟩
  have hmem : job.markDone (some runId) ∈ s.jobs.modify c.id (.markDone (some runId)) := by
    refine List.mem_iff_getElem?.mpr ⟨c.id, ?_⟩
    rw [List.getElem?_modify_eq, hjob]
    rfl
  have hfailed : (s.runs.set runId RunStatus.failed)[runId]? = some .failed :=
    List.getElem?_set_self hrun
  have hstatus := (hagree _ hmem).2 runId rfl hfailed
  cases hstatus

end

/-- **Jobs and runs.** In every run of the system without a breached cap, jobs and runs agree in
every state. Behind any such run, a breached cap can be continued to a job that succeeded with a run
that failed; a worker that crashes in between leaves none. -/
theorem job_run_agree (allowlist : List Source) :
    (∀ es s, Guarded (step allowlist) Uncapped {} es → exec (step allowlist) {} es = some s →
      Agree s) ∧
    ∀ es s w c runId, Guarded (step allowlist) Uncapped {} es →
      exec (step allowlist) {} es = some s → s.workers w = .running c runId →
      ∃ s', exec (step allowlist) s [.endRun w .failed, .markDone w] = some s' ∧ ¬ Agree s' :=
  ⟨fun _ _ hg h => (linked_exec hg h).agree,
    fun _ _ _ _ _ hg h hw => capped_disagrees (linked_exec hg h) hw⟩

/-- A worker takes the only job, and its run ends so. -/
def wholeRun (status : RunStatus) : List Label :=
  [.enqueue [("source_name", .str "docs")], .start 0, .recover 0, .claim 0 [], .createRun 0,
    .endRun 0 status, .markDone 0]

/-- Behind a breached cap the job has succeeded and its run has failed. -/
theorem capped_fetch_succeeds :
    ¬ ∀ s, exec (step [{ name := "docs" }]) {} (wholeRun .failed) = some s → Agree s := by
  intro h
  have hagree := h _ rfl _ List.mem_cons_self
  have hfailed := hagree.2 0 rfl rfl
  cases hfailed

/-- Behind a fetch inside its caps they agree. -/
theorem job_run_agree_uncapped :
    ∃ s, exec (step [{ name := "docs" }]) {} (wholeRun .succeeded) = some s ∧ Agree s := by
  have hg : Guarded (step [{ name := "docs" }]) Uncapped {} (wholeRun .succeeded) :=
    guarded_of_forall fun s l hl w he => by simp [wholeRun, he] at hl
  exact ⟨_, rfl, (job_run_agree _).1 _ _ hg rfl⟩

/-! ## The only worker crashes -/

/-- A worker starts only when no other one is live. -/
def SoloStart (s : System) (l : Label) : Prop := ∀ w, l = .start w → ∀ w', s.workers w' = .down

/-- The worker is processing a job whose run has completed. -/
def Completed (s : System) (w : Nat) : Prop :=
  ∃ runId, (s.workers w).run = some runId ∧ completed s.runs runId = true

/-- In the state `s'` behind the sweep, a job whose run had completed has succeeded with that run,
and a job whose run had not is queued. -/
structure Reconciled (s : System) (w : Nat) (c : Claim) (s' : System) : Prop where
  done : ∀ runId, (s.workers w).run = some runId → completed s.runs runId = true →
    ∃ job, s'.jobs[c.id]? = some job ∧ job.status = .succeeded ∧ job.resultRunId = some runId
  queued : ¬ Completed s w → s'.statusAt c.id = some .queued

section
variable {allowlist : List Source} {s s' : System} {w : Nat}

theorem live_of_enter {t : System} {phase : Phase} {w' : Nat} (ht : t.workers = s.workers)
    (hw : s.workers w ≠ .down) (h : (t.enter w phase).workers w' ≠ .down) :
    s.workers w' ≠ .down := by
  by_cases he : w' = w
  · rw [he]
    exact hw
  · rwa [enter_of_ne he, ht] at h

/-- Only a start brings a worker to life. -/
theorem live_step (l : Label) (h : step allowlist s l = some s') {w' : Nat}
    (hlive : s'.workers w' ≠ .down) : s.workers w' ≠ .down ∨ l = .start w' := by
  cases l with
  | enqueue payload =>
    cases h
    exact .inl hlive
  | start w =>
    obtain ⟨-, rfl⟩ := step_start.mp h
    by_cases he : w' = w
    · rw [he]
      exact .inr rfl
    · rw [enter_of_ne he] at hlive
      exact .inl hlive
  | recover w =>
    obtain ⟨stale, hw, rfl⟩ := step_recover.mp h
    exact .inl (live_of_enter rfl (by simp [hw]) hlive)
  | claim w locked =>
    obtain ⟨hw, c, jobs, -, rfl⟩ := step_claim.mp h
    exact .inl (live_of_enter rfl (by simp [hw]) hlive)
  | createRun w =>
    obtain ⟨c, hw, -, rfl⟩ := step_createRun.mp h
    exact .inl (live_of_enter rfl (by simp [hw]) hlive)
  | endRun w status =>
    obtain ⟨c, runId, hw, -, rfl⟩ := step_endRun.mp h
    exact .inl (live_of_enter rfl (by simp [hw]) hlive)
  | raise w error =>
    obtain ⟨c, runId, hp, rfl⟩ := step_raise.mp h
    refine .inl (live_of_enter rfl (fun hw => ?_) hlive)
    rw [hw] at hp
    cases hp
  | cancel w =>
    obtain ⟨c, runId, hp, rfl⟩ := step_cancel.mp h
    refine .inl (live_of_enter rfl (fun hw => ?_) hlive)
    rw [hw] at hp
    cases hp
  | markDone w =>
    obtain ⟨c, runId, hw, rfl⟩ := step_markDone.mp h
    exact .inl (live_of_enter rfl (by simp [hw]) hlive)
  | markFailed w =>
    obtain ⟨c, runId, error, cancelled, hw, rfl⟩ := step_markFailed.mp h
    refine .inl ?_
    split at hlive
    · exact live_of_enter rfl (by simp [hw]) hlive
    · exact live_of_enter rfl (by simp [hw]) hlive
  | stop w =>
    obtain ⟨hw, rfl⟩ := step_stop.mp h
    exact .inl (live_of_enter rfl (by simp [hw]) hlive)
  | crash w =>
    obtain ⟨hw, rfl⟩ := step_crash.mp h
    exact .inl (live_of_enter rfl hw hlive)

/-- At most one worker is live. -/
def Solo (s : System) : Prop := ∀ w w', s.workers w ≠ .down → s.workers w' ≠ .down → w = w'

theorem solo_step (l : Label) (hs : Solo s) (hstart : SoloStart s l)
    (h : step allowlist s l = some s') : Solo s' := by
  intro w w' hw hw'
  rcases live_step l h hw with hold | rfl
  · rcases live_step l h hw' with hold' | rfl
    · exact hs w w' hold hold'
    · exact absurd (hstart w' rfl w) hold
  · rcases live_step _ h hw' with hold' | he
    · exact absurd (hstart w rfl w') hold'
    · cases he
      rfl

theorem solo_exec {es : List Label} (hg : Guarded (step allowlist) SoloStart {} es)
    (h : exec (step allowlist) {} es = some s) : Solo s :=
  exec_invariant (fun _ l _ hs hstart hstep => solo_step l hs hstart hstep)
    (fun _ _ hw _ => absurd rfl hw) hg h

theorem safeStart_of_solo (s : System) (l : Label) (h : SoloStart s l) : SafeStart s l := by
  intro w he w'
  rw [h w he w']
  rfl

/-- The sweep behind a crash requeues the job, whatever its run has done. -/
theorem crash_requeues {c : Claim} (hi : Inv s) (hs : Solo s) (hc : (s.workers w).claim = some c)
    (w' : Nat) : ∃ s', exec (step allowlist) s [.crash w, .start w', .recover w'] = some s' ∧
      s'.statusAt c.id = some .queued := by
  have hlive : s.workers w ≠ .down := by
    intro hw
    rw [hw] at hc
    cases hc
  let s₁ := s.enter w .down
  let s₂ := s₁.enter w' (.sweeping (staleJobs s.jobs))
  have hcrash : step allowlist s (.crash w) = some s₁ := step_crash.mpr ⟨hlive, rfl⟩
  have hdown : s₁.workers w' = .down := by
    by_cases he : w' = w
    · rw [he]
      exact enter_self _ _ _
    · rw [enter_of_ne he]
      by_contra hw'
      exact he (hs w' w hw' hlive)
  have hstart : step allowlist s₁ (.start w') = some s₂ := step_start.mpr ⟨hdown, rfl⟩
  have hrecover : step allowlist s₂ (.recover w') = some _ :=
    step_recover.mpr ⟨_, enter_self _ _ _, rfl⟩
  refine ⟨_, exec_cons.mpr ⟨s₁, hcrash, exec_cons.mpr ⟨s₂, hstart, exec_cons.mpr
    ⟨_, hrecover, rfl⟩⟩⟩, ?_⟩
  obtain ⟨job, hjob, hr, -⟩ := hi.owns hc
  have hget := recoverStale_unlinked s.runs s.jobs hi.stale_links c.id
  have hmem : c.id ∈ (staleJobs s.jobs).map (·.1) :=
    List.mem_map.mpr ⟨(c.id, job.resultRunId), mem_staleJobs.mpr ⟨job, hjob, hr, rfl⟩, rfl⟩
  rw [hjob, Option.map_some, if_pos hmem] at hget
  unfold System.statusAt
  rw [enter_jobs]
  exact (congrArg (Option.map (·.status)) hget).trans rfl

end

/-- **Crashes.** Let the only worker crash while it processes a job, and another one start. Behind
its sweep the job is as it should be exactly when the run of the job had not completed. -/
theorem crash_reconciled_iff (allowlist : List Source) (es : List Label) (s : System) (w w' : Nat)
    (c : Claim) (hg : Guarded (step allowlist) SoloStart {} es)
    (h : exec (step allowlist) {} es = some s) (hc : (s.workers w).claim = some c) :
    ∃ s', exec (step allowlist) s [.crash w, .start w', .recover w'] = some s' ∧
      (Reconciled s w c s' ↔ ¬ Completed s w) := by
  have hi := inv_exec (hg.mono safeStart_of_solo) h
  obtain ⟨s', hs', hqueued⟩ := crash_requeues hi (solo_exec hg h) hc w'
  refine ⟨s', hs', fun hr ⟨runId, hrun, hdone⟩ => ?_, fun hn => ⟨?_, fun _ => hqueued⟩⟩
  · obtain ⟨job, hjob, hst, -⟩ := hr.done runId hrun hdone
    rw [System.statusAt, hjob, Option.map_some, hst] at hqueued
    cases hqueued
  · exact fun runId hrun hdone => absurd ⟨runId, hrun, hdone⟩ hn

theorem wholeRun_solo (status : RunStatus) (n : Nat) :
    Guarded (step [{ name := "docs" }]) SoloStart {} ((wholeRun status).take n) := by
  have hother : ∀ s l, (∀ w, l ≠ .start w) → SoloStart s l := fun _ _ h w he => absurd he (h w)
  have hall : Guarded (step [{ name := "docs" }]) SoloStart {} (wholeRun status) := by
    refine Guarded.cons (hother _ _ (by simp)) rfl (Guarded.cons (fun _ _ _ => rfl) rfl ?_)
    exact guarded_of_forall fun s l hl => hother s l fun w he => by simp [he] at hl
  rw [← List.take_append_drop n (wholeRun status)] at hall
  exact (guarded_append.mp hall).1

/-- The worker crashes between the commit of its run and that of the job: the job is queued
again. -/
theorem crash_repeats_run :
    ¬ ∀ s s' c, exec (step [{ name := "docs" }]) {} ((wholeRun .succeeded).take 6) = some s →
      exec (step [{ name := "docs" }]) s [.crash 0, .start 1, .recover 1] = some s' →
      (s.workers 0).claim = some c → Reconciled s 0 c s' := by
  intro h
  have hr := h _ _ _ rfl rfl rfl
  obtain ⟨job, hjob, hst, -⟩ := hr.done 0 rfl rfl
  cases hjob
  cases hst

/-- Had it crashed inside `run_source`, that would be right. -/
theorem crash_reconciled_iff_unfinished : ∃ s c s',
    exec (step [{ name := "docs" }]) {} ((wholeRun .succeeded).take 5) = some s ∧
    exec (step [{ name := "docs" }]) s [.crash 0, .start 1, .recover 1] = some s' ∧
    (Reconciled s 0 c s' ↔ ¬ Completed s 0) := by
  obtain ⟨s', hs'⟩ := crash_reconciled_iff [{ name := "docs" }] ((wholeRun .succeeded).take 5) _ 0 1
    _ (wholeRun_solo .succeeded 5) rfl rfl
  exact ⟨_, _, s', rfl, hs'⟩

end KnowledgeKiln.L1.Worker
