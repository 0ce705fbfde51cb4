import Polaris.Service.OneExecutor

namespace Polaris
open PyJson SortedDict Journal Relation Agent

/-- What the end of a cancelled task asks of the journal. -/
def AgentCall.cancels (runId : String) {β : Type} : AgentCall β → Prop
  | .journal (.getRun _) => True
  | .journal (.appendEvent ..) => True
  | .journal (.markRunStatus id status) => id = runId ∧ status = .cancelled
  | _ => False

namespace Journal

/-- The rest of the journal when a run is at most marked as cancelled. -/
structure Marked (runId : String) (j j' : Journal) : Prop where
  steps : j'.steps = j.steps
  approvals : j'.approvals = j.approvals
  rows : ∀ run ∈ j'.runs, run ∈ j.runs ∨ run.status = .cancelled
  others : ∀ id, id ≠ runId → j'.findRun id = j.findRun id
  cancelled : ∀ run, j.findRun runId = some run → run.status = .cancelled →
    ∃ run', j'.findRun runId = some run' ∧ run'.status = .cancelled

variable {runId : String} {j j' j'' : Journal} {a : Ambient}

theorem Marked.of_same (hsteps : j'.steps = j.steps) (happrovals : j'.approvals = j.approvals)
    (hruns : j'.runs = j.runs) : Marked runId j j' where
  steps := hsteps
  approvals := happrovals
  rows _ h := .inl (hruns ▸ h)
  others id _ := by rw [findRun, findRun, hruns]
  cancelled run h hstatus := ⟨run, by rw [findRun, hruns]; exact h, hstatus⟩

theorem Marked.trans (h : Marked runId j j') (h' : Marked runId j' j'') : Marked runId j j'' where
  steps := h'.steps.trans h.steps
  approvals := h'.approvals.trans h.approvals
  rows run hrun := (h'.rows run hrun).elim (h.rows run) .inr
  others id hid := (h'.others id hid).trans (h.others id hid)
  cancelled run hrun hstatus := by
    obtain ⟨run', hrun', hstatus'⟩ := h.cancelled run hrun hstatus
    exact h'.cancelled run' hrun' hstatus'

theorem marked_of_call {β : Type} {c : JournalCall β} {sha : Sha256}
    (hc : (AgentCall.journal c).cancels runId) : Marked runId j (c.perform sha a j).2 := by
  rcases h : c.perform sha a j with ⟨e | b, j'⟩
  · have hsame : (c.perform sha a j).2 = j := c.perform_atomic sha a j e (by rw [h])
    rw [h] at hsame
    rw [show j' = j from hsame]
    exact .of_same rfl rfl rfl
  · cases c with
    | getRun =>
        obtain ⟨-, rfl⟩ := requireRun_ok.1 h
        exact .of_same rfl rfl rfl
    | appendEvent =>
        obtain ⟨column, -, rfl⟩ := appendEvent_ok h
        exact .of_same rfl rfl rfl
    | markRunStatus id status =>
        obtain ⟨rfl, rfl⟩ := hc
        obtain ⟨row, hrow, ⟨-, rfl⟩ | ⟨htarget, column, rfl⟩⟩ := markRunStatus_ok h
        · exact .of_same rfl rfl rfl
        · have hfind : ∀ other, ((j.updateRun id (.withStatus a .cancelled)).addEvent
              (j.eventRecord id "run.status_changed" none column a.now)).findRun other =
              (j.findRun other).map fun r => if r.id = id then r.withStatus a .cancelled else r := by
            intro other
            simpa [findRun] using @Table.find_updateWhere _ _ _ RunRecord.id j.runs other
              (fun r => r.id = id) (.withStatus a .cancelled) fun r => rfl
          refine ⟨rfl, rfl, fun run hrun => ?_, fun other hother => ?_, fun run hrun hstatus => ?_⟩
          · obtain ⟨r, hr, rfl⟩ := List.mem_map.1 hrun
            by_cases hid : r.id = id
            · exact .inr (by simp [hid])
            · exact .inl (by simpa [hid] using hr)
          · rw [hfind]
            cases hr : j.findRun other with
            | none => rfl
            | some r =>
                have hkey : r.id = other := Table.find_key hr
                simp [hkey, hother]
          · obtain rfl := Option.some.inj (hrow.symm.trans hrun)
            simp [hstatus, RunStatus.transitions] at htarget
    | _ => exact hc.elim

end Journal

namespace AgentService
variable {svc : AgentService} {others : Answers} {s s' : ServiceState} {run : RunRecord}
  {runId : String}

theorem runJournal_bind {α β : Type} (p : Agent α) (f : α → Agent β) (s : ServiceState) :
    svc.runJournal others (p >>= f) s = (svc.runJournal others p >>= fun a =>
      svc.runJournal others (f a)) s := by
  induction p generalizing s with
  | done r => cases r <;> rfl
  | call e k ih => exact ih _ _

theorem runJournal_attempt {α : Type} (p : Agent α) (s : ServiceState) :
    svc.runJournal others p.attempt s =
      (.ok (svc.runJournal others p s).1, (svc.runJournal others p s).2) := by
  induction p generalizing s with
  | done r => rfl
  | call e k ih => exact ih _ _

theorem runJournal_journal {β : Type} (c : JournalCall β) (s : ServiceState) :
    svc.runJournal others (journal c) s = svc.onJournal c s := rfl

theorem runJournal_marked {α : Type} {p : Agent α} (hp : p.Only (AgentCall.cancels runId))
    (s : ServiceState) : Marked runId s.journal (svc.runJournal others p s).2.journal := by
  induction p generalizing s with
  | done r => exact .of_same rfl rfl rfl
  | @call β e k ih =>
      obtain ⟨he, hk⟩ := hp
      cases e with
      | journal c =>
          have hfirst : Marked runId s.journal (c.perform svc.memory.sha (s.clock s.ticks) s.journal).2 :=
            marked_of_call he
          exact hfirst.trans (ih _ (hk _) (s.withJournal
            (c.perform svc.memory.sha (s.clock s.ticks) s.journal).2))
      | _ => exact he.elim

theorem taskCancelled_cancels (runId : String) :
    (taskCancelled runId).Only (AgentCall.cancels runId) := by
  have hevent : (appendEvent runId "service.task_cancelled" (dict []) none).Only
      (AgentCall.cancels runId) := Program.only_perform trivial
  refine Program.Only.bind (Program.only_perform trivial) fun current => ?_
  split
  · exact hevent.bind fun _ => Program.only_pure _
  · refine Program.Only.bind ?_ fun _ => hevent.bind fun _ => Program.only_pure _
    refine (Program.only_perform ⟨rfl, rfl⟩).attempt.bind fun r => ?_
    cases r with
    | ok => exact Program.only_pure _
    | error e =>
        change (if e.cls = .invalidTransitionError then pure () else Program.throw e : Agent Unit).Only _
        split
        · exact Program.only_pure _
        · exact Program.only_throw _

/-- A task that takes its cancellation cancels its run. -/
theorem taskCancelled_marks (hfound : s.journal.findRun runId = some run)
    (hopen : run.status.isTerminal = false) :
    ∃ run', (svc.runJournal others (taskCancelled runId) s).2.journal.findRun runId = some run' ∧
      run'.status = .cancelled := by
  have htarget : RunStatus.cancelled ∈ run.status.transitions := by
    cases hstatus : run.status <;> simp_all [RunStatus.isTerminal, RunStatus.transitions]
  have hread : svc.runJournal others (Agent.getRun runId) s = (.ok run, s.withJournal s.journal) := by
    rw [Agent.getRun, runJournal_journal, onJournal_ok]
    exact ⟨_, requireRun_ok.2 ⟨hfound, rfl⟩, rfl⟩
  obtain ⟨j, hmarks, hmarked⟩ := @markRunStatus_returns (s.clock (s.ticks + 1)) _ _ _ .cancelled
    hfound htarget
  have hmark : svc.runJournal others (suppress .invalidTransitionError
      (Agent.markRunStatus runId .cancelled)) (s.withJournal s.journal) =
        (.ok (), (s.withJournal s.journal).withJournal j) := by
    have hcall : svc.runJournal others (Agent.markRunStatus runId .cancelled)
        (s.withJournal s.journal) = (.ok (run.withStatus (s.clock (s.ticks + 1)) .cancelled),
          (s.withJournal s.journal).withJournal j) := by
      rw [Agent.markRunStatus, runJournal_journal, onJournal_ok]
      exact ⟨j, hmarks, rfl⟩
    rw [suppress, runJournal_bind, Txn.bind_of_ok (runJournal_attempt _ _), hcall]
    rfl
  have hevent : (Agent.appendEvent runId "service.task_cancelled" (dict []) none >>= fun _ =>
      (pure () : Agent Unit)).Only (AgentCall.cancels runId) :=
    (Program.only_perform trivial).bind fun _ => Program.only_pure _
  rw [taskCancelled, closeRun, runJournal_bind, Txn.bind_of_ok hread, if_neg (by simp [hopen]),
    runJournal_bind, Txn.bind_of_ok hmark]
  exact (runJournal_marked hevent _).cancelled _ hmarked rfl

/-- A task that the closing service waits for takes its cancellation. -/
inductive Stops (svc : AgentService) (s : ServiceState) : ServiceState → Prop
  | dropped {i : ℕ} {t : AsyncTask} : i ∈ s.tasks.map Prod.snd → s.loop[i]? = some t →
      t.status = .created → Stops svc s (s.setTask i (t.finish .cancelled))
  | interrupted (others : Answers) {i : ℕ} {t : AsyncTask} {q : Except PyError Unit}
      {s' : ServiceState} : i ∈ s.tasks.map Prod.snd → s.loop[i]? = some t → t.status = .running →
      svc.runJournal others (taskCancelled t.runId) s = (q, s') →
      Stops svc s (s'.setTask i (t.finish (.ofHandler q)))

/-- `close` from the moment it marks the service as closed: it cancels the tasks of the table and
waits for all of them, in whatever order they end. -/
structure Closes (svc : AgentService) (s s' : ServiceState) : Prop where
  stops : ReflTransGen svc.Stops { s with closed := true } s'
  stopped : ∀ i ∈ s'.tasks.map Prod.snd, s'.done i = true

/-- A service that is built anew over a journal. -/
def restart (j : Journal) (m : MemoryStore) (clock : ℕ → Ambient) : ServiceState :=
  ⟨j, m, [], [], [], false, clock, 0⟩

/-- The run is recovered after the closing as it would be after a crash at its beginning. -/
structure ClosesAsCrash (svc : AgentService) (s s' : ServiceState) (run : RunRecord) : Prop where
  row : s'.journal.findRun run.id = s.journal.findRun run.id
  steps : s'.journal.steps = s.journal.steps
  approvals : s'.journal.approvals = s.journal.approvals
  startup : ∀ (clock : ℕ → Ambient) (resumed : List String) (t : ServiceState),
    svc.startup (restart s.journal s.memory clock) = (.ok resumed, t) →
      ∃ resumed' t', svc.startup (restart s'.journal s'.memory clock) = (.ok resumed', t') ∧
        (run.id ∈ resumed' ↔ run.id ∈ resumed)

/-- A run in progress in a state that the service reached. -/
structure Closing (svc : AgentService) (s : ServiceState) (run : RunRecord) : Prop where
  turned : ∃ (x : Execution) (l₀ l : EventLoop), Fresh l₀ ∧ ReflTransGen (svc.Turn x) l₀ l ∧
    l.service = s
  reached : ∃ calls, s.journal = history svc.memory.sha calls
  found : s.journal.findRun run.id = some run
  unfinished : run.status.isTerminal = false

/-- A task of the table has begun to execute the run. -/
def Executing (s : ServiceState) (runId : String) : Prop :=
  ∃ i t, (runId, i) ∈ s.tasks ∧ s.loop[i]? = some t ∧ t.status = .running

theorem Closing.listed (h : Closing svc s run) : Listed s := by
  obtain ⟨x, l₀, l, hfresh, hturns, rfl⟩ := h.turned
  exact turns_listed hfresh hturns

/-- What the ends of the tasks leave of the state before them. -/
structure Stopped (s s' : ServiceState) : Prop where
  tasks : s'.tasks = s.tasks
  loop : ∀ (k : ℕ) (t' : AsyncTask), s'.loop[k]? = some t' → ∃ t, s.loop[k]? = some t ∧
    t'.runId = t.runId ∧ (t'.status = .running → t.status = .running)
  steps : s'.journal.steps = s.journal.steps
  approvals : s'.journal.approvals = s.journal.approvals
  rows : ∀ r ∈ s'.journal.runs, r ∈ s.journal.runs ∨ r.status = .cancelled
  idle : ∀ id, ¬ Executing s id → s'.journal.findRun id = s.journal.findRun id

variable {s₁ s₂ : ServiceState} {t : AsyncTask} {i : ℕ} {outcome : TaskOutcome}

theorem Stopped.refl (s : ServiceState) : Stopped s s where
  tasks := rfl
  loop _ t' h := ⟨t', h, rfl, id⟩
  steps := rfl
  approvals := rfl
  rows _ hr := .inl hr
  idle _ _ := rfl

theorem Stopped.set (h : Stopped s s₁) (ht : s₁.loop[i]? = some t)
    (hloop : s₂.loop = s₁.loop.set i (t.finish outcome)) (k : ℕ) (t' : AsyncTask)
    (hk : s₂.loop[k]? = some t') : ∃ t, s.loop[k]? = some t ∧ t'.runId = t.runId ∧
      (t'.status = .running → t.status = .running) := by
  rw [hloop] at hk
  by_cases hik : i = k
  · subst hik
    rw [List.getElem?_set_self (List.getElem?_eq_some_iff.1 ht).1] at hk
    obtain rfl := Option.some.inj hk
    obtain ⟨u, hu, hrun, -⟩ := h.loop i t ht
    exact ⟨u, hu, hrun, fun hrunning => by simp [AsyncTask.finish] at hrunning⟩
  · rw [List.getElem?_set_ne hik] at hk
    exact h.loop k t' hk

/-- A running task of the table executes the run that the table names it for. -/
theorem Stopped.executing (h : Stopped s s₁) (hlisted : Listed s)
    (hi : i ∈ s₁.tasks.map Prod.snd) (ht : s₁.loop[i]? = some t) (hrunning : t.status = .running) :
    Executing s t.runId := by
  rw [h.tasks] at hi
  obtain ⟨e, he, rfl⟩ := List.mem_map.1 hi
  obtain ⟨u, hu, hname⟩ := hlisted e he
  obtain ⟨v, hv, hrun, hstatus⟩ := h.loop e.2 t ht
  obtain rfl := Option.some.inj (hu.symm.trans hv)
  exact ⟨e.2, u, by rw [hrun, hname]; exact he, hu, hstatus hrunning⟩

theorem Stopped.stop (h : Stopped s s₁) (hlisted : Listed s) (hstop : svc.Stops s₁ s₂) : Stopped s s₂ := by
  cases hstop with
  | @dropped i t _ ht => exact ⟨h.tasks, h.set ht rfl, h.steps, h.approvals, h.rows, h.idle⟩
  | @interrupted others i t q s₃ hi ht hrunning hhandled =>
      obtain ⟨hloop, htasks⟩ := @runJournal_keeps svc _ others (taskCancelled t.runId) s₁
      have hmarked : Marked t.runId s₁.journal s₃.journal := by
        have := @runJournal_marked svc others _ _ _ (taskCancelled_cancels t.runId) s₁
        rwa [hhandled] at this
      rw [hhandled] at hloop htasks
      have hexecuting := h.executing hlisted hi ht hrunning
      refine ⟨htasks.trans h.tasks, @Stopped.set _ _ _ _ _ (.ofHandler q) h ht ?_,
        hmarked.steps.trans h.steps, hmarked.approvals.trans h.approvals, fun r hr => ?_,
        fun id hidle => ?_⟩
      · rw [ServiceState.setTask_loop, hloop]
      · exact (hmarked.rows r hr).elim (h.rows r) .inr
      · have hother : id ≠ t.runId := fun hid => hidle (hid ▸ hexecuting)
        exact (hmarked.others id hother).trans (h.idle id hidle)

theorem stopped_of_stops (hlisted : Listed s) (h : ReflTransGen svc.Stops s s') : Stopped s s' := by
  induction h with
  | refl => exact .refl s
  | tail _ hstop ih => exact ih.stop hlisted hstop

theorem Closes.left (h : svc.Closes s s') (hlisted : Listed s) : Stopped s s' :=
  have hleft := stopped_of_stops (s := { s with closed := true }) hlisted h.stops
  ⟨hleft.tasks, hleft.loop, hleft.steps, hleft.approvals, hleft.rows, hleft.idle⟩

/-- Until it has ended, a running task may cancel its run; then it has. -/
structure Pending (run : RunRecord) (i : ℕ) (t : AsyncTask) (s : ServiceState) : Prop where
  row : ∃ row, s.journal.findRun run.id = some row ∧
    (row.status = .cancelled ∨ row = run ∧ s.loop[i]? = some t)

theorem Pending.stop (h : Pending run i t s₁) (hrun : t.runId = run.id)
    (hrunning : t.status = .running) (hopen : run.status.isTerminal = false)
    (hstop : svc.Stops s₁ s₂) : Pending run i t s₂ := by
  obtain ⟨row, hrow, hstate⟩ := h.row
  cases hstop with
  | @dropped k u _ hu hcreated =>
      refine ⟨row, hrow, hstate.imp_right fun ⟨hsame, ht⟩ => ⟨hsame, ?_⟩⟩
      have hk : k ≠ i := by
        rintro rfl
        obtain rfl := Option.some.inj (ht.symm.trans hu)
        simp [hrunning] at hcreated
      rw [ServiceState.setTask_loop, List.getElem?_set_ne hk, ht]
  | @interrupted others k u q s₃ _ hu hurunning hhandled =>
      have hmarked : Marked u.runId s₁.journal s₃.journal := by
        have := @runJournal_marked svc others _ _ _ (taskCancelled_cancels u.runId) s₁
        rwa [hhandled] at this
      have hloop := (@runJournal_keeps svc _ others (taskCancelled u.runId) s₁).1
      rw [hhandled] at hloop
      by_cases hsame : u.runId = run.id
      · rcases hstate with hcancelled | ⟨rfl, ht⟩
        · rw [← hsame] at hrow
          obtain ⟨row', hrow', hcancelled'⟩ := hmarked.cancelled row hrow hcancelled
          exact ⟨row', by rw [← hsame]; exact hrow', .inl hcancelled'⟩
        · obtain ⟨row', hrow', hcancelled⟩ := @taskCancelled_marks svc others _ _ u.runId
            (by rw [hsame]; exact hrow) hopen
          rw [hhandled] at hrow'
          exact ⟨row', by rw [← hsame]; exact hrow', .inl hcancelled⟩
      · refine ⟨row, (hmarked.others _ (Ne.symm hsame)).trans hrow, hstate.imp_right ?_⟩
        rintro ⟨rfl, ht⟩
        have hk : k ≠ i := by
          rintro rfl
          obtain rfl := Option.some.inj (ht.symm.trans hu)
          exact hsame hrun
        exact ⟨rfl, by rw [ServiceState.setTask_loop, List.getElem?_set_ne hk, hloop, ht]⟩

/-- The closing cancels a run that a task of the table has begun to execute. -/
theorem Closes.cancels (h : svc.Closes s s') (hclosing : Closing svc s run)
    (hexecuting : Executing s run.id) :
    ∃ row, s'.journal.findRun run.id = some row ∧ row.status = .cancelled := by
  obtain ⟨i, t, htask, ht, hrunning⟩ := hexecuting
  obtain ⟨u, hu, hname⟩ := hclosing.listed _ htask
  obtain rfl := Option.some.inj (ht.symm.trans hu)
  have hpending : Pending run i t s' := by
    have hstops := h.stops
    generalize s' = s₁ at hstops
    induction hstops with
    | refl => exact ⟨run, hclosing.found, .inr ⟨rfl, ht⟩⟩
    | tail _ hstop ih => exact ih.stop hname hrunning hclosing.unfinished hstop
  obtain ⟨row, hrow, hcancelled | ⟨rfl, hsame⟩⟩ := hpending.row
  · exact ⟨row, hrow, hcancelled⟩
  · have hmem : i ∈ s'.tasks.map Prod.snd := by
      rw [(h.left hclosing.listed).tasks]
      exact List.mem_map_of_mem htask
    have hdone := h.stopped i hmem
    simp [ServiceState.done, hsame, AsyncTask.done, hrunning] at hdone

theorem recovers_iff {j j' : Journal} {r : RunRecord} (hsteps : j'.steps = j.steps)
    (hr : r ∈ j.runs) (hr' : r ∈ j'.runs) (hlisted : r.status = .created ∨ r.status = .running) :
    svc.Recovers (listedParents j') j' r ↔ svc.Recovers (listedParents j) j r := by
  have htop := (top_iff hr' hlisted).trans (top_iff hr hlisted).symm
  constructor
  · rintro h
    obtain ⟨-, hunleased, hsettled, havailable⟩ := (Recovers.congr hsteps).1 h
    exact ⟨htop.1 h.top, hunleased, hsettled, havailable⟩
  · rintro h
    obtain ⟨-, hunleased, hsettled, havailable⟩ := (Recovers.congr hsteps.symm).1 h
    exact ⟨htop.2 h.top, hunleased, hsettled, havailable⟩

/-- A startup that comes through after a crash comes through after the closing, and takes up the run
in both cases or in none. -/
theorem Stopped.startup {clock : ℕ → Ambient} {resumed : List String} {m m' : MemoryStore}
    {t : ServiceState} (h : Stopped s s') (hkeyed : s.journal.StepsKeyed)
    (hruns : Table.Keyed RunRecord.id s.journal.runs) (hrow : s'.journal.findRun run.id = some run)
    (hfound : s.journal.findRun run.id = some run)
    (hstartup : svc.startup (restart s.journal m clock) = (.ok resumed, t)) :
    ∃ resumed' t', svc.startup (restart s'.journal m' clock) = (.ok resumed', t') ∧
      (run.id ∈ resumed' ↔ run.id ∈ resumed) := by
  have hkeyed' : s'.journal.StepsKeyed := by rwa [StepsKeyed, h.steps]
  obtain ⟨rows, j, hreclaim, -, -, hresumed⟩ := startup_ok hstartup
  have hjruns : j.runs = s.journal.runs :=
    same_of_perform (p := .runs) hkeyed hreclaim (by simp [JournalCall.writes])
  have hsame : ∀ rows' j', (JournalCall.reclaimExpiredLeases none).perform svc.memory.sha
      ((restart s'.journal m' clock).clock (restart s'.journal m' clock).ticks)
        (restart s'.journal m' clock).journal = (.ok rows', j') →
      j'.runs = s'.journal.runs ∧ j'.steps = j.steps ∧
        ∀ r ∈ j'.runs, r.status = .created ∨ r.status = .running → r ∈ j.runs := by
    intro rows' j' hreclaim'
    have hjruns' : j'.runs = s'.journal.runs :=
      same_of_perform (p := .runs) hkeyed' hreclaim' (by simp [JournalCall.writes])
    refine ⟨hjruns', ?_, fun r hr hlisted => ?_⟩
    · rw [reclaim_steps hkeyed' hreclaim', reclaim_steps hkeyed hreclaim]
      exact congrArg _ h.steps
    · rw [hjruns] 
      refine (h.rows r (hjruns' ▸ hr)).resolve_right fun hcancelled => ?_
      simp [hcancelled] at hlisted
  obtain ⟨resumed', t', hstartup'⟩ := @startup_returns svc (restart s'.journal m' clock) rfl
    fun rows' j' hreclaim' r hr hlisted => by
      obtain ⟨-, hsteps, hback⟩ := hsame rows' j' hreclaim'
      have hanswers := startup_answerable hstartup hreclaim (hback r hr hlisted) hlisted
      intro htop hunleased hsettled
      refine (hanswers.congr hsteps) ?_ hunleased hsettled
      exact ((top_iff hr hlisted).trans (top_iff (hback r hr hlisted) hlisted).symm).1 htop
  refine ⟨resumed', t', hstartup', ?_⟩
  obtain ⟨rows', j', hreclaim', -, -, hresumed'⟩ := startup_ok hstartup'
  obtain ⟨hjruns', hsteps, hback⟩ := hsame rows' j' hreclaim'
  rw [hresumed, hresumed']
  constructor
  · rintro ⟨r, hr, hlisted, hid, hrecovers⟩
    exact ⟨r, hback r hr hlisted, hlisted, hid,
      (recovers_iff hsteps (hback r hr hlisted) hr hlisted).1 hrecovers⟩
  · rintro ⟨r, hr, hlisted, hid, hrecovers⟩
    obtain rfl : r = run := hruns.eq_of_key (hjruns ▸ hr) (Table.find_mem hfound) hid
    have hr' : r ∈ j'.runs := hjruns' ▸ Table.find_mem hrow
    exact ⟨r, hr', hlisted, rfl, (recovers_iff hsteps hr hr' hlisted).2 hrecovers⟩

theorem closesAsCrash_iff (hclosing : Closing svc s run) (h : svc.Closes s s') :
    ClosesAsCrash svc s s' run ↔ ¬ Executing s run.id := by
  obtain ⟨calls, hcalls⟩ := hclosing.reached
  have hkeyed : s.journal.StepsKeyed := hcalls ▸ (history_invariant _ calls).keyed
  have hruns : Table.Keyed RunRecord.id s.journal.runs := hcalls ▸ (history_ledger _ calls).runsKeyed
  have hleft := h.left hclosing.listed
  constructor
  · rintro hcrash hexecuting
    obtain ⟨row, hrow, hcancelled⟩ := h.cancels hclosing hexecuting
    rw [hcrash.row, hclosing.found] at hrow
    obtain rfl := Option.some.inj hrow
    have := hclosing.unfinished
    simp [hcancelled, RunStatus.isTerminal] at this
  · intro hidle
    have hrow := hleft.idle run.id hidle
    exact ⟨hrow, hleft.steps, hleft.approvals, fun clock resumed t hstartup =>
      hleft.startup hkeyed hruns (hrow.trans hclosing.found) hclosing.found hstartup⟩

theorem resume_keeps (runId : String) (s : ServiceState) :
    (svc.resume runId s).2.journal = s.journal := by
  let Same (s s' : ServiceState) : Prop := s'.journal = s.journal
  have hbind : ∀ {α β : Type} {m : Service α} {f : α → Service β}, Txn.Within Same m →
      (∀ a, Txn.Within Same (f a)) → Txn.Within Same (m >>= f) :=
    Txn.Within.bind fun h h' => h'.trans h
  have hread : ∀ {β : Type} {c : JournalCall β}, (∀ a, Txn.ReadOnly (c.perform svc.memory.sha a)) →
      Txn.Within Same (svc.onJournal c) := fun hc s => hc (s.clock s.ticks) s.journal
  have hpure : ∀ {β : Type} {m : Service β}, Txn.ReadOnly m → Txn.Within Same m :=
    fun hm => hm.within fun _ => rfl
  have hdoubt : Txn.Within Same (svc.hasUncertainOpaqueStep runId) :=
    hbind (hread (c := .listSteps runId none) fun _ => listSteps_readOnly _ _) fun _ =>
      hpure (Txn.pure_readOnly _)
  have hschedule : Txn.Within Same (schedule runId) := fun s => (schedule_keeps runId s).1
  refine hbind (hread (c := .getRun runId) fun _ => requireRun_readOnly runId) (fun run => ?_) s
  split
  · exact hpure (Txn.fail_readOnly _)
  · refine hbind hdoubt fun doubtful => ?_
    split
    · exact hpure (Txn.fail_readOnly _)
    · refine hbind (hpure (Txn.lift_readOnly _)) fun available => ?_
      split
      · exact hpure (Txn.fail_readOnly _)
      · exact hbind hschedule fun _ => hpure (Txn.pure_readOnly _)

/-! A shutdown while a run waits for its provider. -/

namespace Interrupted

/-- The first task of the run has begun. -/
def state : ServiceState := Overtaken.resumed.setTask 0 Overtaken.running

theorem journal_eq : state.journal = history Retried.sha Overtaken.calls := by
  have hkeeps := @resume_keeps Retried.service Overtaken.runId Overtaken.start
  have hserved : Overtaken.resumed.journal =
      (Retried.service.resume Overtaken.runId Overtaken.start).2.journal := by
    unfold Overtaken.resumed serve
    simp only [bind, Txn.bind]
    rcases Retried.service.resume Overtaken.runId Overtaken.start with ⟨_ | run, s⟩ <;> rfl
  exact hserved.trans hkeeps

theorem found : ((history Retried.sha Overtaken.calls).findRun Overtaken.runId).any
    (fun run => run.id = Overtaken.runId && !run.status.isTerminal) = true := by
  decide +kernel

theorem loops : state.loop = [Overtaken.running] ∧ state.tasks = [(Overtaken.runId, 0)] := by
  decide +kernel

theorem turns : ∃ l₀ l, Fresh l₀ ∧ ReflTransGen (Retried.service.Turn Overtaken.execution) l₀ l ∧
    l.service = state := by
  have hfirst : Retried.service.Turn Overtaken.execution ⟨Overtaken.resumed, []⟩ ⟨state,
      [⟨0, Overtaken.runId, Retried.service.execute Overtaken.execution Overtaken.runId⟩]⟩ :=
    .first (t := .start Overtaken.runId) (by rw [Overtaken.loops.1]; rfl) rfl rfl
  exact ⟨⟨Overtaken.start, []⟩, _, ⟨rfl, rfl, rfl⟩, .tail (.single Overtaken.resumes) hfirst, rfl⟩

theorem closing : ∃ run, run.id = Overtaken.runId ∧ Closing Retried.service state run := by
  obtain ⟨run, hfound, hrun⟩ := (Option.any_eq_true _ _).1 found
  simp only [Bool.and_eq_true, decide_eq_true_eq, Bool.not_eq_true'] at hrun
  refine ⟨run, hrun.1, ⟨⟨_, turns⟩, ⟨Overtaken.calls, journal_eq⟩, ?_, hrun.2⟩⟩
  rw [hrun.1, journal_eq]
  exact hfound

theorem executing : Executing state Overtaken.runId := by
  obtain ⟨hloop, htasks⟩ := loops
  exact ⟨0, Overtaken.running, by simp [htasks], by rw [hloop]; rfl, rfl⟩

theorem closes : ∃ s', Retried.service.Closes state s' := by
  obtain ⟨q, s', hhandled⟩ : ∃ q s', Retried.service.runJournal Overtaken.others
      (taskCancelled Overtaken.runId) { state with closed := true } = (q, s') := ⟨_, _, rfl⟩
  obtain ⟨hloop, htasks⟩ := @runJournal_keeps Retried.service _ Overtaken.others
    (taskCancelled Overtaken.runId) { state with closed := true }
  rw [hhandled] at hloop htasks
  obtain ⟨hloop', htasks'⟩ := loops
  refine ⟨s'.setTask 0 (Overtaken.running.finish (.ofHandler q)), .single (.interrupted
    Overtaken.others (by simp [htasks']) (by rw [hloop']; rfl) rfl hhandled), fun i hi => ?_⟩
  rw [ServiceState.setTask_tasks, htasks, htasks'] at hi
  obtain rfl : i = 0 := by simpa using hi
  rw [ServiceState.done, ServiceState.setTask_loop, hloop, hloop']
  rfl

end Interrupted

theorem closesAsCrash_iff_interrupted : ∃ run s', Retried.service.Closes Interrupted.state s' ∧
    (ClosesAsCrash Retried.service Interrupted.state s' run ↔
      ¬ Executing Interrupted.state run.id) := by
  obtain ⟨run, -, hclosing⟩ := Interrupted.closing
  obtain ⟨s', hcloses⟩ := Interrupted.closes
  exact ⟨run, s', hcloses, closesAsCrash_iff hclosing hcloses⟩

theorem not_every_close_is_as_crash : ¬ ∀ (svc : AgentService) (s s' : ServiceState)
    (run : RunRecord), Closing svc s run → svc.Closes s s' → ClosesAsCrash svc s s' run := by
  intro h
  obtain ⟨run, hid, hclosing⟩ := Interrupted.closing
  obtain ⟨s', hcloses⟩ := Interrupted.closes
  have hcrash := h _ _ _ _ hclosing hcloses
  obtain ⟨row, hrow, hcancelled⟩ := hcloses.cancels hclosing (hid ▸ Interrupted.executing)
  rw [hcrash.row, hclosing.found] at hrow
  obtain rfl := Option.some.inj hrow
  have hopen := hclosing.unfinished
  simp [hcancelled, RunStatus.isTerminal] at hopen

end AgentService

end Polaris
