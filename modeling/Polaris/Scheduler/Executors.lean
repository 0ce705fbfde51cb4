import Polaris.Scheduler.Occurrences

namespace Polaris
open PyJson SchedulerStore

structure SchedulerEngine where
  owner : String
  lease : ℤ
  batch : ℤ

/-- Where the task of an occurrence is: it has not started, it waits for the callback that submits
the run or for the run itself, its heartbeat has ended, or it has. -/
inductive ExecutionPhase where
  | spawned
  | submitting
  | waiting (polarisRunId : String)
  | returned (polarisRunId : String)
  | done
deriving DecidableEq, Repr

def ExecutionPhase.beats : ExecutionPhase → Bool
  | .submitting | .waiting _ => true
  | _ => false

def ExecutionPhase.polarisRunId : ExecutionPhase → Option String
  | .waiting polarisRunId | .returned polarisRunId => some polarisRunId
  | _ => none

structure Executor where
  runId : String
  attempt : ℕ
  phase : ExecutionPhase
deriving DecidableEq, Repr

def Executor.of (run : JobRun) : Executor := ⟨run.id, run.attempt, .spawned⟩

def Executor.inPhase (phase : ExecutionPhase) (e : Executor) : Executor := { e with phase := phase }

/-- A store and the tasks of one engine. -/
structure Engine where
  tables : SchedulerTables
  executors : List Executor

namespace Engine

def after (s : Engine) (t : SchedulerTables) : Engine := { s with tables := t }

def spawns (s : Engine) (runs : List JobRun) (t : SchedulerTables) : Engine :=
  ⟨t, s.executors ++ runs.map Executor.of⟩

def moves (s : Engine) (n : ℕ) (e : Executor) (t : SchedulerTables) : Engine :=
  ⟨t, s.executors.set n e⟩

end Engine

/-- Whose step it is. -/
inductive EngineEvent where
  | executor (e : Executor)
  | retry (runId : String)
  | other

inductive EngineStep (store : SchedulerStore) (engine : SchedulerEngine) (s : Engine) :
    EngineEvent → Engine → Prop
  | calls {β : Type} {c : SchedulerCall β} {a : Draws} {r : Except PyError β}
      {t : SchedulerTables} : c.isRetry = false → c.perform store a s.tables = (r, t) →
      EngineStep store engine s .other (s.after t)
  | ticks {now : Timestamp} {startupCap : Option ℤ} {a : Draws} {runs : List JobRun}
      {t : SchedulerTables} :
      claimDueRuns store now engine.owner (.timedelta engine.lease) engine.batch startupCap none a
        s.tables = (.ok runs, t) →
      EngineStep store engine s .other (s.spawns runs t)
  | retries {runId : String} {now : Timestamp} {a : Draws} {run : JobRun} {t : SchedulerTables} :
      createRetry runId engine.owner (.timedelta engine.lease) true (some now) a s.tables =
        (.ok run, t) →
      EngineStep store engine s (.retry runId) (s.spawns [run] t)
  | startsCancelled {n : ℕ} {e : Executor} {now : Timestamp} {a : Draws} {row : JobRun}
      {r : Except PyError JobRun} {t : SchedulerTables} : s.executors[n]? = some e →
      e.phase = .spawned → s.tables.findRun e.runId = some row → row.cancelRequested = true →
      SchedulerStore.cancel e.runId (some engine.owner) (some now) a s.tables = (r, t) →
      EngineStep store engine s .other (s.moves n (e.inPhase .done) t)
  | marks {n : ℕ} {e : Executor} {now : Timestamp} {a : Draws} {row : JobRun}
      {r : Except PyError JobRun} {t : SchedulerTables} {phase : ExecutionPhase} :
      s.executors[n]? = some e → e.phase = .spawned → s.tables.findRun e.runId = some row →
      row.cancelRequested = false →
      markRunning e.runId engine.owner (some now) none a s.tables = (r, t) →
      phase = (if r.toOption.any (fun run => run.status ≠ .cancelled) then .submitting else .done) →
      EngineStep store engine s (.executor e) (s.moves n (e.inPhase phase) t)
  | beats {n : ℕ} {e : Executor} {now : Timestamp} {a : Draws} {r : Except PyError JobRun}
      {t : SchedulerTables} : s.executors[n]? = some e → e.phase.beats = true →
      heartbeat e.runId engine.owner (.timedelta engine.lease) (some now) a s.tables = (r, t) →
      EngineStep store engine s (.executor e) (s.after t)
  | attaches {n : ℕ} {e : Executor} {polarisRunId : String} {now : Timestamp} {a : Draws}
      {run : JobRun} {t : SchedulerTables} : s.executors[n]? = some e → e.phase = .submitting →
      setPolarisRunId e.runId engine.owner polarisRunId (some now) a s.tables = (.ok run, t) →
      EngineStep store engine s (.executor e) (s.moves n (e.inPhase (.waiting polarisRunId)) t)
  | returns {n : ℕ} {e : Executor} {polarisRunId : String} : s.executors[n]? = some e →
      e.phase = .waiting polarisRunId →
      EngineStep store engine s .other
        (s.moves n (e.inPhase (.returned polarisRunId)) s.tables)
  | fails {n : ℕ} {e : Executor} {row : JobRun} {message : String} {polarisRunId : Option String}
      {now : Timestamp} {a : Draws} {r : Except PyError JobRun} {t : SchedulerTables} :
      s.executors[n]? = some e → e.phase.beats = true →
      s.tables.findRun e.runId = some row →
      complete e.runId engine.owner (if row.cancelRequested then .cancelled else .failed)
        (if row.cancelRequested then none else some message) polarisRunId (some now) a s.tables =
          (r, t) →
      EngineStep store engine s (.executor e) (s.moves n (e.inPhase .done) t)
  | succeeds {n : ℕ} {e : Executor} {row : JobRun} {polarisRunId : String} {now : Timestamp}
      {a : Draws} {r : Except PyError JobRun} {t : SchedulerTables} :
      s.executors[n]? = some e → e.phase = .returned polarisRunId →
      s.tables.findRun e.runId = some row →
      complete e.runId engine.owner (if row.cancelRequested then .cancelled else .succeeded) none
        (some polarisRunId) (some now) a s.tables = (r, t) →
      EngineStep store engine s (.executor e) (s.moves n (e.inPhase .done) t)
  | stops : EngineStep store engine s .other ⟨s.tables, []⟩

/-- The runs of an engine in which every retry meets a condition. -/
inductive EngineReach (store : SchedulerStore) (engine : SchedulerEngine)
    (C : Engine → String → Prop) : Engine → Prop
  | start : EngineReach store engine C ⟨⟨[], []⟩, []⟩
  | step {s s' : Engine} {event : EngineEvent} : EngineReach store engine C s →
      EngineStep store engine s event s' → (∀ runId, event = .retry runId → C s runId) →
      EngineReach store engine C s'

/-- The calls of an executor change its run only while the run is at its attempt. -/
def AttemptsFenced (store : SchedulerStore) (engine : SchedulerEngine) (s : Engine) : Prop :=
  ∀ e s', EngineStep store engine s (.executor e) s' → ∀ row, s.tables.findRun e.runId = some row →
    s'.tables.findRun e.runId ≠ some row → row.attempt = e.attempt

/-- No executor of the run is still at work. -/
def Engine.Finished (s : Engine) (runId : String) : Prop :=
  ∀ e ∈ s.executors, e.runId = runId → e.phase = .done

theorem RunMove.attempt {runId : String} {run : JobRun} {r' : Option JobRun}
    (h : RunMove runId (some run) r') : ∃ run', r' = some run' ∧ run'.attempt = run.attempt := by
  cases h <;> exact ⟨_, rfl, rfl⟩

theorem getRuns_ok {ids : List String} {runs : List JobRun} {t t' : SchedulerTables}
    (h : getRuns ids t = (.ok runs, t')) :
    t' = t ∧ runs.map JobRun.id = ids ∧ ∀ run ∈ runs, t.findRun run.id = some run := by
  induction ids generalizing runs with
  | nil =>
      obtain ⟨rfl, rfl⟩ := Txn.pure_ok.1 h
      simp
  | cons id ids ih =>
      simp only [getRuns, Txn.bind_ok, Txn.pure_ok] at h
      obtain ⟨run, _, hget, rest, _, hrest, rfl, rfl⟩ := h
      obtain ⟨hrun, rfl⟩ := getRun_ok hget
      obtain ⟨rfl, hids, hall⟩ := ih hrest
      refine ⟨rfl, by rw [List.map_cons, hids, Table.find_key hrun], fun r hr => ?_⟩
      rcases List.mem_cons.1 hr with rfl | hr
      · rwa [Table.find_key hrun]
      · exact hall r hr

theorem claimDueRuns_found {store : SchedulerStore} {now : Timestamp} {owner : String}
    {lease : LeaseTime} {batch : ℤ} {startupCap jitterSeed : Option ℤ} {a : Draws}
    {runs : List JobRun} {t t' : SchedulerTables}
    (h : claimDueRuns store now owner lease batch startupCap jitterSeed a t = (.ok runs, t')) :
    ∀ run ∈ runs, t'.findRun run.id = some run := by
  simp only [claimDueRuns, Txn.bind_ok] at h
  obtain ⟨_, _, -, _, _, -, _, _, -, _, _, -, _, _, -, ids, t₁, -, hruns⟩ := h
  obtain ⟨rfl, -, hall⟩ := getRuns_ok hruns
  exact hall

namespace Engine
variable {store : SchedulerStore} {engine : SchedulerEngine} {s s' : Engine} {event : EngineEvent}

/-- The run of each executor that is at work is at its attempt. -/
structure Inv (s : Engine) : Prop where
  keyed : RunsKeyed s.tables
  current : ∀ e ∈ s.executors, e.phase ≠ .done →
    ∃ row, s.tables.findRun e.runId = some row ∧ row.attempt = e.attempt

theorem Inv.carries (h : Inv s) {t : SchedulerTables} (hmoves : RunsMove s.tables t) {e : Executor}
    (he : e ∈ s.executors) (hphase : e.phase ≠ .done) :
    ∃ row, t.findRun e.runId = some row ∧ row.attempt = e.attempt := by
  obtain ⟨row, hrow, hattempt⟩ := h.current e he hphase
  have hmove := hmoves.1 e.runId
  change RunMove e.runId (s.tables.findRun e.runId) (t.findRun e.runId) at hmove
  rw [hrow] at hmove
  obtain ⟨row', hrow', hsame⟩ := hmove.attempt
  exact ⟨row', hrow', hsame.trans hattempt⟩

theorem Inv.after (h : Inv s) {t : SchedulerTables} (hmoves : RunsMove s.tables t) :
    Inv (s.after t) := ⟨hmoves.2, fun _ he hphase => h.carries hmoves he hphase⟩

theorem Inv.moves (h : Inv s) {t : SchedulerTables} (hmoves : RunsMove s.tables t) {n : ℕ}
    {e : Executor} (he : s.executors[n]? = some e) (hactive : e.phase ≠ .done)
    (phase : ExecutionPhase) : Inv (s.moves n (e.inPhase phase) t) := by
  refine ⟨hmoves.2, fun other hother hphase => ?_⟩
  rcases List.mem_or_eq_of_mem_set hother with hother | hother
  · exact h.carries hmoves hother hphase
  · rw [hother]
    exact h.carries (e := e) hmoves (List.mem_of_getElem? he) hactive

theorem phase_ne_done {phase : ExecutionPhase} (h : phase.beats = true) : phase ≠ .done := by
  rintro rfl
  simp [ExecutionPhase.beats] at h

theorem Inv.step (h : Inv s) (hstep : EngineStep store engine s event s')
    (hfinished : ∀ runId, event = .retry runId → s.Finished runId) : Inv s' := by
  have hmoves : ∀ {β : Type} {c : SchedulerCall β} {a : Draws} {r : Except PyError β}
      {t : SchedulerTables}, c.isRetry = false → c.perform store a s.tables = (r, t) →
      RunsMove s.tables t := fun hc hperform => SchedulerCall.perform_runs h.keyed hc hperform
  cases hstep with
  | calls hc hperform => exact h.after (hmoves hc hperform)
  | @ticks now startupCap a runs t hclaim =>
      have hmoves := hmoves (c := .claimDueRuns now engine.owner (.timedelta engine.lease)
        engine.batch startupCap none) rfl hclaim
      refine ⟨hmoves.2, fun e he hphase => ?_⟩
      rcases List.mem_append.1 he with he | he
      · exact h.carries hmoves he hphase
      · obtain ⟨run, hrun, rfl⟩ := List.mem_map.1 he
        exact ⟨run, claimDueRuns_found hclaim run hrun, rfl⟩
  | @retries runId now a run t hretry =>
      rcases createRetry_cases hretry with ⟨e, he, -⟩ |
        ⟨row, run', expires, hok, hrow, hretryable, -, rfl, hfound⟩
      · simp at he
      · obtain rfl := Except.ok.inj hok
        refine ⟨h.keyed.update retry_keeps, fun e he hphase => ?_⟩
        rcases List.mem_append.1 he with he | he
        · -- the executors of the run are done, and the other runs are as they were
          have hother : e.runId ≠ runId := fun hid => hphase (hfinished runId rfl e he hid)
          obtain ⟨other, hother', hattempt⟩ := h.current e he hphase
          refine ⟨other, ?_, hattempt⟩
          change (updateRuns _ _ s.tables).findRun e.runId = some other
          have hid : other.id ≠ runId := fun hid => hother ((Table.find_key hother').symm.trans hid)
          rw [find_updateRuns retry_keeps, hother', Option.map_some]
          simp [hid]
        · obtain rfl : e = Executor.of run := by simpa using he
          refine ⟨run, ?_, rfl⟩
          have hid : run.id = runId := Table.find_key hfound
          change SchedulerTables.findRun _ run.id = some run
          rw [hid]
          exact hfound
  | @startsCancelled n e now a row r t he hphase _ _ hcancel =>
      exact h.moves (hmoves (c := .cancel e.runId (some engine.owner) (some now)) rfl hcancel) he
        (by simp [hphase]) _
  | @marks n e now a row r t phase he hphase _ _ hmark =>
      exact h.moves (hmoves (c := .markRunning e.runId engine.owner (some now) none) rfl hmark) he
        (by simp [hphase]) _
  | @beats n e now a r t _ _ hbeat =>
      exact h.after (hmoves (c := .heartbeat e.runId engine.owner (.timedelta engine.lease)
        (some now)) rfl hbeat)
  | @attaches n e polarisRunId now a run t he hphase hattach =>
      exact h.moves (hmoves (c := .setPolarisRunId e.runId engine.owner polarisRunId (some now)) rfl
        hattach) he (by simp [hphase]) _
  | returns he hphase => exact h.moves (runsMove_refl h.keyed) he (by simp [hphase]) _
  | @fails n e row message polarisRunId now a r t he hphase _ hcomplete =>
      exact h.moves (hmoves (c := .complete e.runId engine.owner
        (if row.cancelRequested then .cancelled else .failed)
        (if row.cancelRequested then none else some message) polarisRunId (some now)) rfl hcomplete) he (phase_ne_done hphase) _
  | @succeeds n e row polarisRunId now a r t he hphase _ hcomplete =>
      exact h.moves (hmoves (c := .complete e.runId engine.owner
        (if row.cancelRequested then .cancelled else .succeeded) none (some polarisRunId)
        (some now)) rfl hcomplete) he (by simp [hphase]) _
  | stops => exact ⟨h.keyed, by simp⟩

theorem Inv.reach (h : EngineReach store engine Finished s) : Inv s := by
  induction h with
  | start => exact ⟨⟨List.nodup_nil, List.nodup_nil⟩, by simp⟩
  | step _ hstep hfinished ih => exact ih.step hstep hfinished

end Engine

theorem EngineStep.executor_active {store : SchedulerStore} {engine : SchedulerEngine}
    {s s' : Engine} {e : Executor} (h : EngineStep store engine s (.executor e) s') :
    e ∈ s.executors ∧ e.phase ≠ .done := by
  cases h with
  | marks he hphase => exact ⟨List.mem_of_getElem? he, by simp [hphase]⟩
  | beats he hphase => exact ⟨List.mem_of_getElem? he, Engine.phase_ne_done hphase⟩
  | attaches he hphase => exact ⟨List.mem_of_getElem? he, by simp [hphase]⟩
  | fails he hphase => exact ⟨List.mem_of_getElem? he, Engine.phase_ne_done hphase⟩
  | succeeds he hphase => exact ⟨List.mem_of_getElem? he, by simp [hphase]⟩

/-- As long as a run is retried only when no executor of it is at work, attempts are fenced. -/
theorem attempts_fenced {store : SchedulerStore} {engine : SchedulerEngine} {s : Engine}
    (h : EngineReach store engine Engine.Finished s) : AttemptsFenced store engine s := by
  intro e s' hstep row hrow _
  obtain ⟨he, hphase⟩ := hstep.executor_active
  obtain ⟨row', hrow', hattempt⟩ := (Engine.Inv.reach h).current e he hphase
  obtain rfl := Option.some.inj (hrow.symm.trans hrow')
  exact hattempt

/-! A run that is retried while the task of its first attempt still waits for the callback. -/

namespace Nightly

def engine : SchedulerEngine := ⟨"engine", 60, 32⟩

def created : SchedulerTables := (create.perform store draws ⟨[], []⟩).2

def claimOp : Op (List JobRun) := claimDueRuns store 10 "engine" (.timedelta 60) 32 none none draws

def claimed : SchedulerTables := (claimOp created).2

def markOp : Op JobRun := markRunning "run" "engine" (some 11) none draws

def marked : SchedulerTables := (markOp claimed).2

def recovered : SchedulerTables := (recoverStaleRuns (some 100) draws marked).2

def retryOp : Op JobRun := createRetry "run" "engine" (.timedelta 60) true (some 110) draws

def retried : SchedulerTables := (retryOp recovered).2

def failOp : Op JobRun := complete "run" "engine" .failed (some "boom") none (some 12) draws

def ended : SchedulerTables := (failOp marked).2

def attachOp : Op JobRun := setPolarisRunId "run" "engine" "late" (some 120) draws

def attached : SchedulerTables := (attachOp retried).2

/-- What is evaluated of an operation, and what follows for its result. -/
theorem ok_of_check {β : Type} {x : Op β} {t : SchedulerTables} {p : β → Bool}
    (h : (x t).1.toOption.any p = true) : ∃ v, x t = (.ok v, (x t).2) ∧ p v = true := by
  rcases hx : x t with ⟨e | v, t'⟩
  · simp [hx, Except.toOption] at h
  · exact ⟨v, rfl, by simpa [hx, Except.toOption] using h⟩

/-- The engine when the callback of the first attempt is still out. -/
theorem reach_marked {C : Engine → String → Prop} :
    EngineReach store engine C ⟨marked, [⟨"run", 1, .submitting⟩]⟩ := by
  obtain ⟨runs, hclaim, hruns⟩ := ok_of_check (x := claimOp) (t := created)
    (p := fun runs => runs.map Executor.of = [⟨"run", 1, .spawned⟩]) (by decide +kernel)
  obtain ⟨run, hmark, hrun⟩ := ok_of_check (x := markOp) (t := claimed)
    (p := fun run => run.status ≠ .cancelled) (by decide +kernel)
  obtain ⟨row, hrow, hrequested⟩ := (Option.any_eq_true (fun row => !row.cancelRequested)
    (claimed.findRun "run")).1 (by decide +kernel)
  have hcreated := (@EngineReach.start store engine C).step
    (.calls (c := create) (a := draws) rfl rfl) (by simp)
  have hclaimed := hcreated.step (.ticks hclaim) (by simp)
  have hspawned : (Engine.spawns ⟨created, []⟩ runs claimed) =
      ⟨claimed, [⟨"run", 1, .spawned⟩]⟩ := by
    simp only [Engine.spawns, of_decide_eq_true hruns, List.nil_append, claimed]
  have hclaimed : EngineReach store engine C ⟨claimed, [⟨"run", 1, .spawned⟩]⟩ := hspawned ▸ hclaimed
  exact hclaimed.step (@EngineStep.marks store engine _ 0 ⟨"run", 1, .spawned⟩ 11 draws row
    (.ok run) marked .submitting rfl rfl hrow (by simpa using hrequested) hmark
    (by simpa [Except.toOption] using hrun)) (by simp)

/-- The engine when the second attempt is claimed. -/
theorem reach_retried {C : Engine → String → Prop} {t : SchedulerTables} (phase : ExecutionPhase)
    (h : EngineReach store engine C ⟨t, [⟨"run", 1, phase⟩]⟩)
    (hC : C ⟨t, [⟨"run", 1, phase⟩]⟩ "run")
    (hretry : (retryOp t).1.toOption.any (fun run => Executor.of run = ⟨"run", 2, .spawned⟩) = true) :
    EngineReach store engine C ⟨(retryOp t).2, [⟨"run", 1, phase⟩, ⟨"run", 2, .spawned⟩]⟩ := by
  obtain ⟨run, hretry, hrun⟩ := ok_of_check hretry
  have hspawned : Engine.spawns ⟨t, [⟨"run", 1, phase⟩]⟩ [run] (retryOp t).2 =
      ⟨(retryOp t).2, [⟨"run", 1, phase⟩, ⟨"run", 2, .spawned⟩]⟩ := by
    simp only [Engine.spawns, List.map_cons, of_decide_eq_true hrun, List.map_nil,
      List.cons_append, List.nil_append]
  have hstep := h.step (.retries hretry) (by
    intro runId hevent
    obtain rfl := EngineEvent.retry.inj hevent
    exact hC)
  exact hspawned ▸ hstep

theorem reach_recovered {C : Engine → String → Prop} :
    EngineReach store engine C ⟨recovered, [⟨"run", 1, .submitting⟩]⟩ :=
  reach_marked.step (.calls (c := .recoverStaleRuns (some 100)) (a := draws) rfl rfl) (by simp)

end Nightly

/-- The second attempt is claimed when the task of the first one has ended. -/
theorem attempts_fenced_retried : ∃ (s : Engine) (row : JobRun),
    s.tables.findRun "run" = some row ∧ row.attempt = 2 ∧
      AttemptsFenced Nightly.store Nightly.engine s := by
  obtain ⟨row, hrow, hattempt⟩ := (Option.any_eq_true (fun row => row.attempt = 2)
    ((Nightly.retryOp Nightly.ended).2.findRun "run")).1 (by decide +kernel)
  obtain ⟨first, hfirst, hrequested⟩ := (Option.any_eq_true (fun row => !row.cancelRequested)
    (Nightly.marked.findRun "run")).1 (by decide +kernel)
  have hended := Nightly.reach_marked.step (C := Engine.Finished) (@EngineStep.fails Nightly.store
    Nightly.engine _ 0 ⟨"run", 1, .submitting⟩ first "boom" none 12 Nightly.draws
    (Nightly.failOp Nightly.marked).1 Nightly.ended rfl rfl hfirst (by
      have hrequested : first.cancelRequested = false := by simpa using hrequested
      simp only [hrequested, Bool.false_eq_true, if_false]
      rfl)) (by simp)
  refine ⟨_, row, hrow, by simpa using hattempt, attempts_fenced (Nightly.reach_retried .done
    hended ?_ (by decide +kernel))⟩
  intro e he _
  obtain rfl : e = ⟨"run", 1, .done⟩ := by simpa using he
  rfl

/-- A late executor attaches its run to the next attempt. -/
theorem late_executor_attaches :
    ¬ ∀ s, EngineReach Nightly.store Nightly.engine (fun _ _ => True) s →
      AttemptsFenced Nightly.store Nightly.engine s := by
  intro h
  have hreach := Nightly.reach_retried (C := fun _ _ => True) .submitting Nightly.reach_recovered
    trivial (by decide +kernel)
  obtain ⟨run, hattach, -⟩ := Nightly.ok_of_check (x := Nightly.attachOp) (t := Nightly.retried)
    (p := fun _ => true) (by decide +kernel)
  obtain ⟨row, hrow, hattempt⟩ := (Option.any_eq_true
    (fun row => row.attempt = 2 && row.polarisRunId = none) (Nightly.retried.findRun "run")).1
      (by decide +kernel)
  obtain ⟨row', hrow', hattached⟩ := (Option.any_eq_true
    (fun row => row.polarisRunId = some "late") (Nightly.attached.findRun "run")).1
      (by decide +kernel)
  simp only [Bool.and_eq_true, decide_eq_true_eq] at hattempt hattached
  have hfenced := h _ hreach ⟨"run", 1, .submitting⟩ _
    (@EngineStep.attaches Nightly.store Nightly.engine _ 0 ⟨"run", 1, .submitting⟩ "late" 120
      Nightly.draws run Nightly.attached rfl rfl hattach) row hrow (by
        intro hsame
        have hsame : Nightly.attached.findRun "run" = some row := hsame
        obtain rfl := Option.some.inj (hrow'.symm.trans hsame)
        simp [hattempt.2] at hattached)
  rw [hattempt.1] at hfenced
  exact absurd hfenced (by decide)

end Polaris
