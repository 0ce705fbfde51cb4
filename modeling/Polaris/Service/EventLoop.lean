import Mathlib.Logic.Relation
import Polaris.Service.Execution

namespace Polaris
open PyJson SortedDict Journal Relation

/-- What a task has still to do for a run: its own, or that of a worker of its group. -/
structure Activity where
  task : ℕ
  runId : String
  rest : Agent Unit

structure EventLoop where
  service : ServiceState
  activities : List Activity

inductive Request where
  | submit (sub : Submission) (schedule : Bool)
  | submitFanout (others : Answers) (sub : AgentService.FanOutSubmission) (schedule : Bool)
  | resume (runId : String)
  | decideApproval (approvalId : String) (approved : Bool) (decidedBy : String)
      (reason : Option String) (schedule : Bool)
  | startup
  | cancel (runId : String)

def TaskOutcome.ofResult : Except PyError Unit → TaskOutcome
  | .ok _ => .returned
  | .error exc => .raised exc

/-- A task that took its cancellation ends cancelled, unless its handler failed. -/
def TaskOutcome.ofHandler : Except PyError Unit → TaskOutcome
  | .ok _ => .cancelled
  | .error exc => .raised exc

namespace ServiceState

@[simps]
def setTask (i : ℕ) (t : AsyncTask) (s : ServiceState) : ServiceState :=
  { s with
    loop := s.loop.set i t }

end ServiceState

namespace EventLoop

def withoutTask (i : ℕ) (l : EventLoop) : List Activity := l.activities.filter fun a => a.task ≠ i

end EventLoop

namespace AgentService
variable (svc : AgentService) (x : Execution)

def serve : Request → Service Unit
  | .submit sub schedule => do
      let _ ← svc.submitSingle sub schedule
      return ()
  | .submitFanout others sub schedule => do
      let _ ← svc.submitFanout others sub schedule
      return ()
  | .resume runId => do
      let _ ← svc.resume runId
      return ()
  | .decideApproval approvalId approved decidedBy reason schedule => do
      let _ ← svc.decideApproval approvalId approved decidedBy reason schedule
      return ()
  | .startup => do
      let _ ← svc.startup
      return ()
  | .cancel runId => do
      let _ ← svc.cancel runId
      return ()

/-- What happens between one await and the next. The workers of a group are activities of their
own. -/
inductive Turn (l : EventLoop) : EventLoop → Prop
  | request (r : Request) : Turn l { l with service := (svc.serve r l.service).2 }
  /-- The rest of `cancel`, once the task it waits for is done. -/
  | cancelled {i : ℕ} (runId : String) : l.service.done i = true →
      Turn l { l with service := (svc.awaited runId i l.service).2 }
  | remember {β : Type} (call : MemoryCall β) (a : Ambient) : Turn l { l with
      service := l.service.withMemory (svc.memory.perform a call l.service.memory).2 }
  | outside (c : HonestCall) : c.1.call.fromOutside → Turn l { l with
      service := l.service.withJournal (c.1.after svc.memory.sha l.service.journal) }
  | first {i : ℕ} {t : AsyncTask} : l.service.loop[i]? = some t → t.status = .created →
      t.cancelRequested = false →
      Turn l ⟨l.service.setTask i { t with status := .running },
        l.activities ++ [⟨i, t.runId, svc.execute x t.runId⟩]⟩
  | worker {i : ℕ} {t : AsyncTask} (worker : WorkerSpec) (child : RunRecord) :
      l.service.loop[i]? = some t → t.status = .running → child.parentRunId = some t.runId →
      Turn l { l with
        activities := l.activities ++
          [⟨i, child.id, EnsembleResearchEngine.executeWorker x.toPhases worker child⟩] }
  | work {n i : ℕ} {runId : String} {β : Type} {e : AgentCall β}
      {k : Except PyError β → Agent Unit} {q : Except PyError β} {w : World} :
      l.activities[n]? = some ⟨i, runId, .call e k⟩ →
      e.exec svc.memory.sha ⟨l.service.journal, []⟩ q w →
      Turn l ⟨l.service.withJournal w.journal, l.activities.set n ⟨i, runId, k q⟩⟩
  /-- A worker that ended, or that its group gave up. -/
  | leave {n : ℕ} {a : Activity} {t : AsyncTask} : l.activities[n]? = some a →
      l.service.loop[a.task]? = some t → t.runId ≠ a.runId →
      Turn l { l with activities := l.activities.eraseIdx n }
  | finish {i : ℕ} {t : AsyncTask} {q : Except PyError Unit} :
      l.service.loop[i]? = some t → t.status = .running →
      l.activities.filter (fun a => a.task = i) = [⟨i, t.runId, .done q⟩] →
      Turn l ⟨l.service.setTask i (t.finish (.ofResult q)), l.withoutTask i⟩
  /-- The cancellation of a task that ran none of its code. -/
  | dropped {i : ℕ} {t : AsyncTask} : l.service.loop[i]? = some t → t.status = .created →
      t.cancelRequested = true →
      Turn l { l with service := l.service.setTask i (t.finish .cancelled) }
  | interrupted (others : Answers) {i : ℕ} {t : AsyncTask} {q : Except PyError Unit}
      {s : ServiceState} : l.service.loop[i]? = some t → t.status = .running →
      t.cancelRequested = true → svc.runJournal others (taskCancelled t.runId) l.service = (q, s) →
      Turn l ⟨s.setTask i (t.finish (.ofHandler q)), l.withoutTask i⟩
  | callback {i : ℕ} {t : AsyncTask} : l.service.loop[i]? = some t → t.callbackDue = true →
      Turn l { l with
        service := (taskDone t l.service).setTask i { t with callbackDue := false } }

/-- What a method does at a time: it asks the journal, starts a task for a run that has none in
progress, or asks a task to stop. -/
inductive Effect (svc : AgentService) (s s' : ServiceState) : Prop
  | wrote {β : Type} (c : JournalCall β) (a : Ambient) :
      s'.journal = (c.perform svc.memory.sha a s.journal).2 → s'.loop = s.loop →
      s'.tasks = s.tasks → Effect svc s s'
  | waited : s'.journal = s.journal → s'.loop = s.loop → s'.tasks = s.tasks → Effect svc s s'
  | started (runId : String) : (∀ i, lookup runId s.tasks = some i → s.done i = true) →
      s'.journal = s.journal → s'.loop = s.loop ++ [.start runId] →
      s'.tasks = setKey runId s.loop.length s.tasks → Effect svc s s'
  | asked (i : ℕ) : s'.journal = s.journal →
      s'.loop = s.loop.modify i (fun t => { t with cancelRequested := true }) →
      s'.tasks = s.tasks → Effect svc s s'

abbrev Effects (svc : AgentService) {β : Type} (m : Service β) : Prop :=
  Txn.Within (ReflTransGen svc.Effect) m

section
variable {svc : AgentService} {x : Execution} {α β : Type}

theorem Effects.bind {m : Service α} {f : α → Service β} (hm : svc.Effects m)
    (hf : ∀ a, svc.Effects (f a)) : svc.Effects (m >>= f) :=
  Txn.Within.bind ReflTransGen.trans hm hf

theorem pure_effects (b : β) : svc.Effects (pure b : Service β) :=
  (Txn.pure_readOnly b).within fun _ => .refl

theorem fail_effects (e : PyError) : svc.Effects (Txn.fail e : Service β) :=
  (Txn.fail_readOnly e).within fun _ => .refl

theorem read_effects (f : ServiceState → β) : svc.Effects (Txn.read f) :=
  (Txn.read_readOnly f).within fun _ => .refl

theorem lift_effects (r : Except PyError β) : svc.Effects (Txn.lift r) :=
  (Txn.lift_readOnly r).within fun _ => .refl

theorem onJournal_effects (c : JournalCall β) : svc.Effects (svc.onJournal c) :=
  fun s => .single (.wrote c (s.clock s.ticks) rfl rfl rfl)

theorem schedule_effects (runId : String) : svc.Effects (schedule runId) := by
  intro s
  cases hclosed : s.closed with
  | true =>
      have hfails : schedule runId s = (.error ⟨.runtimeError, "service is closed"⟩, s) := by
        simp [schedule, bind, Txn.bind, Txn.read, Txn.require, hclosed]
      rw [hfails]
  | false =>
      obtain ⟨task, s', h⟩ := schedule_returns runId hclosed
      rw [h]
      obtain ⟨-, ⟨-, -, rfl⟩ | ⟨hdone, -, rfl⟩⟩ := schedule_ok h
      · exact .refl
      · exact .single (.started runId hdone rfl rfl rfl)

theorem submitSingle_effects (sub : Submission) (schedule : Bool) :
    svc.Effects (svc.submitSingle sub schedule) := by
  refine (read_effects _).bind fun m => (lift_effects _).bind fun creator => ?_
  refine (onJournal_effects _).bind fun run => ?_
  cases schedule with
  | true => exact (schedule_effects run.id).bind fun _ => pure_effects run
  | false => exact pure_effects run

theorem runJournal_effects (others : Answers) (p : Agent α) : svc.Effects (svc.runJournal others p) := by
  induction p with
  | done r => exact lift_effects r
  | call e k ih =>
      intro s
      refine .head (b := s.withJournal (e.answer svc.memory.sha
          { others with
            clock := fun _ => s.clock s.ticks } ⟨s.journal, []⟩).2.journal) ?_ (ih _ _)
      cases e with
      | journal c => exact .wrote c (s.clock s.ticks) rfl rfl rfl
      | _ => exact .waited rfl rfl rfl

theorem submitFanout_effects (others : Answers) (sub : FanOutSubmission) (schedule : Bool) :
    svc.Effects (svc.submitFanout others sub schedule) := by
  refine (lift_effects _).bind fun engine => (runJournal_effects _ _).bind fun run => ?_
  cases schedule with
  | true => exact (schedule_effects run.id).bind fun _ => pure_effects run
  | false => exact pure_effects run

theorem hasActiveLease_effects (runId : String) : svc.Effects (svc.hasActiveLease runId) :=
  (onJournal_effects _).bind fun _ => pure_effects _

theorem hasUncertainOpaqueStep_effects (runId : String) :
    svc.Effects (svc.hasUncertainOpaqueStep runId) :=
  (onJournal_effects _).bind fun _ => pure_effects _

theorem skipRecovery_effects (runId reason : String) : svc.Effects (svc.skipRecovery runId reason) :=
  (onJournal_effects _).bind fun _ => pure_effects _

theorem recoverRun_effects (parentIds : List String) (run : RunRecord) :
    svc.Effects (svc.recoverRun parentIds run) := by
  unfold recoverRun
  split
  · exact pure_effects _
  · refine (hasActiveLease_effects _).bind fun leased => ?_
    split
    · exact skipRecovery_effects _ _
    · refine (hasUncertainOpaqueStep_effects _).bind fun doubtful => ?_
      split
      · exact skipRecovery_effects _ _
      · refine (lift_effects _).bind fun available => ?_
        split
        · exact skipRecovery_effects _ _
        · exact (schedule_effects _).bind fun _ => pure_effects _

theorem recoverRuns_effects (parentIds : List String) (runs : List RunRecord) :
    svc.Effects (svc.recoverRuns parentIds runs) := by
  induction runs with
  | nil => exact pure_effects _
  | cons run runs ih =>
      exact (recoverRun_effects _ _).bind fun _ => ih.bind fun _ => pure_effects _

theorem startup_effects : svc.Effects svc.startup :=
  (onJournal_effects _).bind fun _ => Txn.Within.bind ReflTransGen.trans (fun _ => .refl) fun _ =>
    recoverRuns_effects _ _

theorem resume_effects (runId : String) : svc.Effects (svc.resume runId) := by
  refine (onJournal_effects _).bind fun run => ?_
  split
  · exact fail_effects _
  · refine (hasUncertainOpaqueStep_effects _).bind fun doubtful => ?_
    split
    · exact fail_effects _
    · refine (lift_effects _).bind fun available => ?_
      split
      · exact fail_effects _
      · exact (schedule_effects _).bind fun _ => pure_effects _

theorem decideApproval_effects (approvalId : String) (approved : Bool) (decidedBy : String)
    (reason : Option String) (schedule : Bool) :
    svc.Effects (svc.decideApproval approvalId approved decidedBy reason schedule) := by
  refine (onJournal_effects _).bind fun approval => ?_
  split
  · refine (onJournal_effects _).bind fun run => ?_
    split
    · exact pure_effects _
    · exact (schedule_effects _).bind fun _ => pure_effects _
  · exact pure_effects _

theorem markCancelled_effects (runId : String) : svc.Effects (svc.markCancelled runId) := by
  refine (onJournal_effects _).bind fun current => ?_
  split
  · exact pure_effects _
  · exact onJournal_effects _

theorem awaited_effects (runId : String) (task : ℕ) : svc.Effects (svc.awaited runId task) := by
  refine (read_effects _).bind fun status => ?_
  split
  · exact fail_effects _
  · exact markCancelled_effects _

theorem cancel_effects (runId : String) : svc.Effects (svc.cancel runId) := by
  refine (onJournal_effects _).bind fun run => ?_
  split
  · exact pure_effects _
  · refine (read_effects _).bind fun entry => ?_
    split
    · exact (markCancelled_effects _).bind fun _ => pure_effects _
    · refine (read_effects _).bind fun finished => ?_
      split
      · exact (awaited_effects _ _).bind fun _ => pure_effects _
      · refine Txn.Within.bind ReflTransGen.trans (fun s => .single ?_) fun _ =>
          (pure_effects _)
        exact .asked _ rfl rfl rfl

theorem serve_effects (r : Request) : svc.Effects (svc.serve r) := by
  cases r with
  | submit sub schedule =>
      exact (submitSingle_effects sub schedule).bind fun _ => pure_effects _
  | submitFanout others sub schedule =>
      exact (submitFanout_effects others sub schedule).bind fun _ => pure_effects _
  | resume runId => exact (resume_effects runId).bind fun _ => pure_effects _
  | decideApproval =>
      exact (decideApproval_effects _ _ _ _ _).bind fun _ => pure_effects _
  | startup => exact startup_effects.bind fun _ => pure_effects _
  | cancel runId => exact (cancel_effects runId).bind fun _ => pure_effects _

theorem runJournal_keeps (others : Answers) (p : Agent α) (s : ServiceState) :
    (svc.runJournal others p s).2.loop = s.loop ∧ (svc.runJournal others p s).2.tasks = s.tasks := by
  induction p generalizing s with
  | done r => exact ⟨rfl, rfl⟩
  | call e k ih => exact ih _ (s.withJournal (e.answer svc.memory.sha
      { others with
        clock := fun _ => s.clock s.ticks } ⟨s.journal, []⟩).2.journal)

variable {s s' : ServiceState} {i k : ℕ} {t u : AsyncTask} {l l' : EventLoop}

/-- What the methods keep of a task. -/
structure SameTask (t t' : AsyncTask) : Prop where
  runId : t'.runId = t.runId
  status : t'.status = t.status
  callbackDue : t'.callbackDue = t.callbackDue

theorem SameTask.done (h : SameTask t u) : u.done = t.done := by simp [AsyncTask.done, h.status]

theorem Effect.kept (h : svc.Effect s s') (ht : s.loop[i]? = some t) :
    ∃ t', s'.loop[i]? = some t' ∧ SameTask t t' := by
  cases h with
  | wrote _ _ _ hloop | waited _ hloop => exact ⟨t, by rw [hloop, ht], rfl, rfl, rfl⟩
  | started runId _ _ hloop =>
      have hlt := (List.getElem?_eq_some_iff.1 ht).1
      exact ⟨t, by rw [hloop, List.getElem?_append_left hlt, ht], rfl, rfl, rfl⟩
  | asked k _ hloop =>
      rw [hloop, List.getElem?_modify, ht]
      refine ⟨_, rfl, ?_⟩
      by_cases hk : k = i
      · simp only [if_pos hk]
        exact ⟨rfl, rfl, rfl⟩
      · simp only [if_neg hk]
        exact ⟨rfl, rfl, rfl⟩

theorem Effect.length (h : svc.Effect s s') : s.loop.length ≤ s'.loop.length := by
  cases h with
  | wrote _ _ _ hloop | waited _ hloop => rw [hloop]
  | started runId _ _ hloop => simp [hloop]
  | asked k _ hloop => simp [hloop]

theorem effects_kept (h : ReflTransGen svc.Effect s s') (ht : s.loop[i]? = some t) :
    ∃ t', s'.loop[i]? = some t' ∧ SameTask t t' := by
  induction h with
  | refl => exact ⟨t, ht, rfl, rfl, rfl⟩
  | tail _ hstep ih =>
      obtain ⟨v, hv, hsame⟩ := ih
      obtain ⟨w, hw, hsame'⟩ := hstep.kept hv
      exact ⟨w, hw, hsame'.runId.trans hsame.runId, hsame'.status.trans hsame.status,
        hsame'.callbackDue.trans hsame.callbackDue⟩

/-- A task of the loop after the methods is one from before, or was started by them. -/
theorem effects_task (h : ReflTransGen svc.Effect s s') (ht : s'.loop[i]? = some t) :
    (∃ u, s.loop[i]? = some u ∧ SameTask u t) ∨ t ∈ s'.loop.drop s.loop.length := by
  by_cases hi : i < s.loop.length
  · obtain ⟨v, hv, hsame⟩ := effects_kept h (List.getElem?_eq_getElem hi)
    obtain rfl := Option.some.inj (ht.symm.trans hv)
    exact .inl ⟨_, List.getElem?_eq_getElem hi, hsame⟩
  · refine .inr (List.mem_of_getElem? (i := i - s.loop.length) ?_)
    rw [List.getElem?_drop, Nat.add_sub_cancel' (not_lt.1 hi), ht]

/-- A service that has just been built. -/
structure Fresh (l : EventLoop) : Prop where
  loop : l.service.loop = []
  tasks : l.service.tasks = []
  activities : l.activities = []

/-- The table names tasks of its runs. -/
def Listed (s : ServiceState) : Prop := ∀ e ∈ s.tasks, ∃ t, s.loop[e.2]? = some t ∧ t.runId = e.1

theorem Effect.listed (h : svc.Effect s s') (hs : Listed s) : Listed s' := by
  have hkept : ∀ e ∈ s.tasks, ∃ t, s'.loop[e.2]? = some t ∧ t.runId = e.1 := by
    intro e he
    obtain ⟨t, ht, hrun⟩ := hs e he
    obtain ⟨t', ht', hsame⟩ := h.kept ht
    exact ⟨t', ht', hsame.runId.trans hrun⟩
  cases h with
  | wrote _ _ _ _ htasks | waited _ _ htasks | asked _ _ _ htasks =>
      exact fun e he => hkept e (htasks ▸ he)
  | started runId _ _ hloop htasks =>
      intro e he
      rw [htasks] at he
      rcases mem_setKey he with rfl | he
      · exact ⟨.start runId, by simp [hloop], rfl⟩
      · exact hkept e he

theorem effects_listed (h : ReflTransGen svc.Effect s s') (hs : Listed s) : Listed s' := by
  induction h with
  | refl => exact hs
  | tail _ hstep ih => exact hstep.listed ih

theorem Listed.set (hs : Listed s) (ht : s.loop[i]? = some t) (hloop : s'.loop = s.loop.set i u)
    (hrun : u.runId = t.runId) (htasks : ∀ e ∈ s'.tasks, e ∈ s.tasks) : Listed s' := by
  intro e he
  obtain ⟨v, hv, hname⟩ := hs e (htasks e he)
  rw [hloop]
  by_cases hi : i = e.2
  · subst hi
    obtain rfl := Option.some.inj (ht.symm.trans hv)
    exact ⟨u, List.getElem?_set_self (List.getElem?_eq_some_iff.1 ht).1, hrun.trans hname⟩
  · exact ⟨v, by rw [List.getElem?_set_ne hi, hv], hname⟩

theorem Turn.listed (h : svc.Turn x l l') (hl : Listed l.service) : Listed l'.service := by
  cases h with
  | request r => exact effects_listed (serve_effects r l.service) hl
  | cancelled runId => exact effects_listed (awaited_effects runId _ l.service) hl
  | remember | outside | worker | work | leave => exact hl
  | first ht | finish ht | dropped ht => exact hl.set ht rfl rfl fun _ he => he
  | @interrupted others i t q s ht _ _ hhandled =>
      obtain ⟨hloop, htasks⟩ := @runJournal_keeps svc _ others (taskCancelled t.runId) l.service
      rw [hhandled] at hloop htasks
      exact hl.set ht (u := t.finish (.ofHandler q)) (by rw [ServiceState.setTask_loop, hloop]) rfl
        fun e he => htasks ▸ he
  | callback ht => exact hl.set ht rfl rfl fun _ he => List.mem_of_mem_filter he

theorem turns_listed {l₀ : EventLoop} (hfresh : Fresh l₀) (h : ReflTransGen (svc.Turn x) l₀ l) :
    Listed l.service := by
  induction h with
  | refl => simp [Listed, hfresh.tasks]
  | tail _ hturn ih => exact hturn.listed ih

/-- A program run without a pause is a run of turns. -/
theorem turns_runJournal (others : Answers) {runId : String} {p : Agent Unit}
    (ha : l.activities = [⟨i, runId, p⟩]) :
    ReflTransGen (svc.Turn x) l ⟨(svc.runJournal others p l.service).2,
      [⟨i, runId, .done (svc.runJournal others p l.service).1⟩]⟩ := by
  induction p generalizing l with
  | done r =>
      have hsame : l = ⟨l.service, [⟨i, runId, .done r⟩]⟩ := by rw [← ha]
      rw [hsame]
      exact .refl
  | call e k ih =>
      refine .head (.work (n := 0) (k := k) (by rw [ha]; rfl) (Agent.exec_answer (s := { others with
        clock := fun _ => l.service.clock l.service.ticks }) e ⟨l.service.journal, []⟩)) ?_
      rw [ha]
      exact ih _ rfl

theorem set_of_getElem? {α : Type*} {as : List α} {n : ℕ} {a : α} (h : as[n]? = some a) :
    as.set n a = as := by
  obtain ⟨hn, rfl⟩ := List.getElem?_eq_some_iff.1 h
  exact List.set_getElem_self hn

/-- The first `n` calls of a program, made without a pause. -/
def advance (svc : AgentService) (others : Answers) :
    ℕ → Agent Unit → ServiceState → Agent Unit × ServiceState
  | 0, p, s => (p, s)
  | _ + 1, .done r, s => (.done r, s)
  | n + 1, .call e k, s =>
      let (r, w) := e.answer svc.memory.sha
        { others with
          clock := fun _ => s.clock s.ticks } ⟨s.journal, []⟩
      svc.advance others n (k r) (s.withJournal w.journal)

theorem advance_loop (others : Answers) (n : ℕ) (p : Agent Unit) (s : ServiceState) :
    (svc.advance others n p s).2.loop = s.loop := by
  induction n generalizing p s with
  | zero => rfl
  | succ n ih =>
      cases p with
      | done r => rfl
      | call e k => exact ih _ _

/-- A stretch of a program is a run of turns. -/
theorem turns_advance (others : Answers) {runId : String} {p : Agent Unit} {m : ℕ} (n : ℕ)
    (ha : l.activities[m]? = some ⟨i, runId, p⟩) :
    ReflTransGen (svc.Turn x) l ⟨(svc.advance others n p l.service).2,
      l.activities.set m ⟨i, runId, (svc.advance others n p l.service).1⟩⟩ := by
  induction n generalizing l p with
  | zero =>
      change ReflTransGen (svc.Turn x) l ⟨l.service, l.activities.set m ⟨i, runId, p⟩⟩
      rw [set_of_getElem? ha]
  | succ n ih =>
      cases p with
      | done r =>
          change ReflTransGen (svc.Turn x) l ⟨l.service, l.activities.set m ⟨i, runId, .done r⟩⟩
          rw [set_of_getElem? ha]
      | call e k =>
          have hexec := @Agent.exec_answer svc.memory.sha { others with
            clock := fun _ => l.service.clock l.service.ticks } _ e ⟨l.service.journal, []⟩
          rcases hanswer : e.answer svc.memory.sha { others with
            clock := fun _ => l.service.clock l.service.ticks } ⟨l.service.journal, []⟩ with ⟨q, w⟩
          rw [hanswer] at hexec
          have hfirst : svc.advance others (n + 1) (.call e k) l.service =
              svc.advance others n (k q) (l.service.withJournal w.journal) := by
            simp only [advance, hanswer]
          have hrest := ih (l := ⟨l.service.withJournal w.journal, l.activities.set m ⟨i, runId, k q⟩⟩)
            (List.getElem?_set_self (List.getElem?_eq_some_iff.1 ha).1)
          rw [List.set_set] at hrest
          rw [hfirst]
          exact .head (.work ha hexec) hrest

end

end AgentService

end Polaris
