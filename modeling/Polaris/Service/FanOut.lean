import Polaris.Ensemble.Submission
import Polaris.Service.Eligibility
import Polaris.Service.Shutdown

namespace Polaris
open PyJson PyVal SortedDict Journal Agent Program Relation

/-- The ways to submit a fan-out run; the last one belongs to a service that may be closed. -/
inductive FanOutCall where
  | createRun (engine : EnsembleResearchEngine) (question : String) (workers : List WorkerSpec)
      (verifier synthesizer : String) (budget : BudgetSpec)
  | createFoundryRouterRun (engine : EnsembleResearchEngine) (question providerName : String)
      (budget : BudgetSpec)
  | submitFanout (svc : AgentService) (closed : Bool) (sub : AgentService.FanOutSubmission)
      (schedule : Bool)

namespace FanOutCall

def program : FanOutCall → Agent RunRecord
  | .createRun engine question workers verifier synthesizer budget =>
      engine.createRun question workers verifier synthesizer budget
  | .createFoundryRouterRun engine question providerName budget =>
      engine.createFoundryRouterRun question providerName budget
  | .submitFanout svc closed sub schedule => do
      let engine ← .ofExcept (svc.ensemble sub.maxWorkers)
      let run ← engine.createRun sub.question sub.workers sub.verifier sub.synthesizer sub.budget
      if schedule && closed then .throw ⟨.runtimeError, "service is closed"⟩ else return run

end FanOutCall

namespace AgentService
variable {svc : AgentService} {others : Answers} {s : ServiceState}

theorem runJournal_closed {α : Type} (p : Agent α) (s : ServiceState) :
    (svc.runJournal others p s).2.closed = s.closed := by
  induction p generalizing s with
  | done r => rfl
  | call e k ih => exact ih _ _

theorem schedule_refuses (runId : String) (hclosed : s.closed = true) :
    schedule runId s = (.error ⟨.runtimeError, "service is closed"⟩, s) := by
  have hread : (Txn.read ServiceState.closed : Service Bool) s = (.ok true, s) := by
    rw [← hclosed]
    rfl
  rw [schedule, Txn.bind_of_ok hread]
  exact Txn.bind_of_error rfl

theorem schedule_then (run : RunRecord) :
    ((do
        let _ ← schedule run.id
        return run : Service RunRecord) s).1 =
        (if s.closed then .error ⟨.runtimeError, "service is closed"⟩ else .ok run) ∧
      ((do
        let _ ← schedule run.id
        return run : Service RunRecord) s).2.journal = s.journal := by
  cases hclosed : s.closed with
  | true => simp [Txn.bind_of_error (schedule_refuses run.id hclosed)]
  | false =>
      obtain ⟨task, t, htask⟩ := schedule_returns run.id hclosed
      have hsame : t.journal = s.journal := by
        obtain ⟨-, ⟨-, -, rfl⟩ | ⟨-, -, rfl⟩⟩ := schedule_ok htask <;> rfl
      rw [Txn.bind_of_ok htask]
      exact ⟨rfl, hsame⟩

/-- What a service does to its journal when a fan-out run is submitted. -/
theorem submitFanout_eq (sub : FanOutSubmission) (schedule : Bool) :
    (svc.submitFanout others sub schedule s).1 =
        (svc.runJournal others (FanOutCall.submitFanout svc s.closed sub schedule).program s).1 ∧
      (svc.submitFanout others sub schedule s).2.journal =
        (svc.runJournal others (FanOutCall.submitFanout svc s.closed sub schedule).program s).2.journal := by
  simp only [submitFanout, FanOutCall.program]
  cases svc.ensemble sub.maxWorkers with
  | error e => exact ⟨rfl, rfl⟩
  | ok engine =>
      have hlift : (Txn.lift (.ok engine) : Service EnsembleResearchEngine) s = (.ok engine, s) := rfl
      have hclosed := @runJournal_closed svc others _
        (engine.createRun sub.question sub.workers sub.verifier sub.synthesizer sub.budget) s
      rw [Txn.bind_of_ok hlift, ofExcept_ok_bind, runJournal_bind]
      rcases hrun : svc.runJournal others (engine.createRun sub.question sub.workers sub.verifier
        sub.synthesizer sub.budget) s with ⟨e | run, t⟩
      · rw [Txn.bind_of_error hrun, Txn.bind_of_error hrun]
        exact ⟨rfl, rfl⟩
      · rw [hrun] at hclosed
        rw [Txn.bind_of_ok hrun, Txn.bind_of_ok hrun]
        cases schedule with
        | false => exact ⟨rfl, rfl⟩
        | true =>
            obtain ⟨hresult, hjournal⟩ := schedule_then (s := t) run
            rw [if_pos rfl, hresult, hjournal, show t.closed = s.closed from hclosed]
            cases s.closed <;> exact ⟨rfl, rfl⟩

end AgentService

namespace FanOutCall

/-- The engine and the checked arguments of the creation in a call. -/
def planned : FanOutCall → Except PyError (EnsembleResearchEngine × FanOut)
  | .createRun engine question workers verifier synthesizer budget =>
      (engine, ·) <$> engine.plan question workers verifier synthesizer budget
  | .createFoundryRouterRun engine question providerName budget => do
      let worker ← EnsembleResearchEngine.foundryRouterWorker providerName
      (engine, ·) <$> engine.plan question [worker] providerName providerName budget
  | .submitFanout svc _ sub _ => do
      let engine ← svc.ensemble sub.maxWorkers
      (engine, ·) <$> engine.plan sub.question sub.workers sub.verifier sub.synthesizer sub.budget

def refused : FanOutCall → Bool
  | .submitFanout _ closed _ schedule => schedule && closed
  | _ => false

/-- What a call does once the run is created. -/
def finish : FanOutCall → RunRecord → Agent RunRecord
  | .createRun .., run => return run
  | .createFoundryRouterRun _ _ providerName _, run => do
      let _ ← appendEvent run.id "ensemble.strategy_selected"
        (dict [("strategy", .str "foundry_model_router"), ("provider", .str providerName),
          ("routing_owner", .str "microsoft_foundry")]) none
      return run
  | .submitFanout _ closed _ schedule, run =>
      if schedule && closed then .throw ⟨.runtimeError, "service is closed"⟩ else return run

theorem program_eq (call : FanOutCall) : call.program = match call.planned with
    | .ok (engine, plan) => (engine.createPlanned plan >>= call.finish)
    | .error e => .done (.error e) := by
  cases call with
  | createRun engine question workers verifier synthesizer budget =>
      simp only [program, EnsembleResearchEngine.createRun_eq, planned]
      cases engine.plan question workers verifier synthesizer budget with
      | error e => rfl
      | ok plan => exact (Program.bind_pure _).symm
  | createFoundryRouterRun engine question providerName budget =>
      simp only [program, EnsembleResearchEngine.createFoundryRouterRun,
        EnsembleResearchEngine.createRun_eq, planned]
      cases EnsembleResearchEngine.foundryRouterWorker providerName with
      | error e => rfl
      | ok worker =>
          have hworker : ∀ f : WorkerSpec → Except PyError (EnsembleResearchEngine × FanOut),
              (Except.ok worker >>= f) = f worker := fun _ => rfl
          rw [ofExcept_ok_bind, hworker]
          cases engine.plan question [worker] providerName providerName budget <;> rfl
  | submitFanout svc closed sub schedule =>
      simp only [program, EnsembleResearchEngine.createRun_eq, planned]
      cases svc.ensemble sub.maxWorkers with
      | error e => rfl
      | ok engine =>
          have hengine : ∀ f : EnsembleResearchEngine → Except PyError (EnsembleResearchEngine × FanOut),
              (Except.ok engine >>= f) = f engine := fun _ => rfl
          rw [ofExcept_ok_bind, hengine]
          cases engine.plan sub.question sub.workers sub.verifier sub.synthesizer sub.budget <;> rfl

/-- The checks of a call fail before it writes, or nothing can fail after that. -/
def Sound (call : FanOutCall) : Prop :=
  ∀ engine plan, call.planned = .ok (engine, plan) →
    (plan.persistedConfig engine).allFinite = true →
    engine.Configured plan.workers ∧ call.refused = false

variable {sha : Sha256} {call : FanOutCall} {w w' : World}

theorem finish_runs {run : RunRecord} {r : Except PyError RunRecord}
    (hfound : (w.journal.findRun run.id).isSome)
    (h : Runs (drawing sha) (call.finish run) w r w') :
    w'.journal.runs = w.journal.runs ∧
      (r = .ok run ∧ call.refused = false ∨ (∃ e, r = .error e) ∧ call.refused = true) := by
  cases call with
  | createRun =>
      obtain ⟨rfl, rfl⟩ := runs_done.1 h
      exact ⟨rfl, .inl ⟨rfl, rfl⟩⟩
  | createFoundryRouterRun =>
      rcases runs_bind.1 h with ⟨event, v, hevent, h⟩ | ⟨e, rfl, hevent⟩
      · obtain ⟨rfl, rfl⟩ := runs_done.1 h
        exact ⟨(EnsembleResearchEngine.event_drawn (by simp) rfl hfound (runs_perform.1 hevent)).2,
          .inl ⟨rfl, rfl⟩⟩
      · obtain ⟨⟨event, he⟩, -⟩ :=
          EnsembleResearchEngine.event_drawn (by simp) rfl hfound (runs_perform.1 hevent)
        simp at he
  | submitFanout svc closed sub schedule =>
      simp only [finish] at h
      split at h
      · obtain ⟨rfl, rfl⟩ := runs_done.1 h
        exact ⟨rfl, .inr ⟨⟨_, rfl⟩, ‹_›⟩⟩
      · obtain ⟨rfl, rfl⟩ := runs_done.1 h
        exact ⟨rfl, .inl ⟨rfl, Bool.eq_false_iff.2 ‹_›⟩⟩

theorem finish_halts {run : RunRecord} (hfound : (w.journal.findRun run.id).isSome)
    (h : Halts (drawing sha) (call.finish run) w w') : w'.journal.runs = w.journal.runs := by
  cases call with
  | createRun =>
      obtain rfl := halts_done.1 h
      rfl
  | createFoundryRouterRun =>
      rcases halts_bind.1 h with hevent | ⟨event, v, hevent, h⟩
      · rcases halts_perform.1 hevent with rfl | ⟨r, hevent⟩
        · rfl
        · exact (EnsembleResearchEngine.event_drawn (by simp) rfl hfound hevent).2
      · obtain rfl := halts_done.1 h
        exact (EnsembleResearchEngine.event_drawn (by simp) rfl hfound (runs_perform.1 hevent)).2
  | submitFanout svc closed sub schedule =>
      simp only [finish] at h
      split at h <;>
      · obtain rfl := halts_done.1 h
        rfl

/-- A call writes nothing, or it creates the parent and children of its first workers. -/
theorem program_runs {r : Except PyError RunRecord} (h : Runs (drawing sha) call.program w r w') :
    (∃ e, r = .error e) ∧ w' = w ∧ (∀ engine plan, call.planned = .ok (engine, plan) →
        (plan.persistedConfig engine).allFinite = false) ∨
      ∃ engine plan parent made, call.planned = .ok (engine, plan) ∧
        (plan.persistedConfig engine).allFinite = true ∧ made <+: plan.workers ∧
        EnsembleResearchEngine.Begun engine plan parent made w.journal w'.journal ∧
        (r = .ok parent ∧ made = plan.workers ∧ engine.Configured plan.workers ∧
            call.refused = false ∨
          (∃ e, r = .error e) ∧ ¬ (engine.Configured plan.workers ∧ call.refused = false)) := by
  rw [program_eq] at h
  cases hplanned : call.planned with
  | error e =>
      rw [hplanned] at h
      obtain ⟨rfl, rfl⟩ := runs_done.1 h
      exact .inl ⟨⟨e, rfl⟩, rfl, by simp⟩
  | ok p =>
      obtain ⟨engine, plan⟩ := p
      rw [hplanned] at h
      rcases runs_bind.1 h with ⟨run, v, hcreate, h⟩ | ⟨e, rfl, hcreate⟩
      · rcases EnsembleResearchEngine.createPlanned_runs hcreate with
          ⟨⟨e, he⟩, -⟩ | ⟨hfinite, parent, made, hmade, hbegun, ⟨hok, hall, hfull⟩ | ⟨⟨e, he⟩, -⟩⟩
        · simp at he
        · obtain rfl := Except.ok.inj hok
          obtain ⟨hsame, hend⟩ := finish_runs (by simp [hbegun.found]) h
          refine .inr ⟨engine, plan, run, made, rfl, hfinite, hmade, hbegun.of_runs hsame, ?_⟩
          rcases hend with ⟨hr, hopen⟩ | ⟨he, hrefused⟩
          · exact .inl ⟨hr, hfull, hall, hopen⟩
          · exact .inr ⟨he, by simp [hrefused]⟩
        · simp at he
      · rcases EnsembleResearchEngine.createPlanned_runs hcreate with
          ⟨he, hsame, hinfinite⟩ | ⟨hfinite, parent, made, hmade, hbegun, ⟨he, -⟩ | ⟨he, hmissing⟩⟩
        · exact .inl ⟨he, hsame, by simpa using hinfinite⟩
        · simp at he
        · exact .inr ⟨engine, plan, parent, made, rfl, hfinite, hmade, hbegun,
            .inr ⟨he, fun hsound => hmissing hsound.1⟩⟩

theorem program_halts (h : Halts (drawing sha) call.program w w') :
    w' = w ∨ ∃ engine plan parent made, call.planned = .ok (engine, plan) ∧ made <+: plan.workers ∧
      EnsembleResearchEngine.Begun engine plan parent made w.journal w'.journal := by
  rw [program_eq] at h
  cases hplanned : call.planned with
  | error e =>
      rw [hplanned] at h
      exact .inl (halts_done.1 h).symm
  | ok p =>
      obtain ⟨engine, plan⟩ := p
      rw [hplanned] at h
      rcases halts_bind.1 h with hcreate | ⟨run, v, hcreate, h⟩
      · rcases EnsembleResearchEngine.createPlanned_halts hcreate with hsame | ⟨parent, made, hbegun⟩
        · exact .inl hsame
        · exact .inr ⟨engine, plan, parent, made, rfl, hbegun⟩
      · rcases EnsembleResearchEngine.createPlanned_runs hcreate with
          ⟨⟨e, he⟩, -⟩ | ⟨-, parent, made, hmade, hbegun, ⟨hok, -⟩ | ⟨⟨e, he⟩, -⟩⟩
        · simp at he
        · obtain rfl := Except.ok.inj hok
          have hsame := finish_halts (by simp [hbegun.found]) h
          exact .inr ⟨engine, plan, run, made, rfl, hmade, hbegun.of_runs hsame⟩
        · simp at he

/-- The call asks the journal for something that keeps its history. -/
def isHonest {β : Type} : AgentCall β → Prop
  | .journal op => op.Honest
  | _ => False

theorem event_honest {runId eventType : String} {payload : PyVal} (h : ¬ IsMoveEvent eventType) :
    Program.Only (fun e => isHonest e) (appendEvent runId eventType payload none) :=
  only_perform h

theorem createChildren_honest (engine : EnsembleResearchEngine) (plan : FanOut)
    (parentId : String) (workers : List WorkerSpec) :
    (EnsembleResearchEngine.createChildren engine plan parentId workers).Only fun e => isHonest e := by
  induction workers with
  | nil => exact only_pure _
  | cons worker workers ih =>
      exact (only_ofExcept _).bind fun _ => (only_perform trivial).bind fun _ =>
        (event_honest (by decide)).bind fun _ => ih

theorem program_honest (call : FanOutCall) : call.program.Only fun e => isHonest e := by
  have hfinish : ∀ run, (call.finish run).Only fun e => isHonest e := by
    intro run
    cases call with
    | createRun => exact only_pure _
    | createFoundryRouterRun => exact (event_honest (by decide)).bind fun _ => only_pure _
    | submitFanout =>
        simp only [finish]
        split
        · exact only_throw _
        · exact only_pure _
  rw [program_eq]
  split
  · exact ((only_perform trivial).bind fun _ => (createChildren_honest _ _ _ _).bind fun _ =>
      (event_honest (by decide)).bind fun _ => only_pure _).bind hfinish
  · trivial

theorem program_exists_runs (sha : Sha256) (call : FanOutCall) (w : World) :
    ∃ r w', Runs (drawing sha) call.program w r w' := by
  refine (program_honest call).exists_runs fun {β} e v he => ?_
  cases e with
  | journal op =>
      obtain ⟨uuid, hfresh⟩ := exists_fresh v.journal
      let a : Ambient := ⟨0, 0, 0, uuid⟩
      exact ⟨_, v.withJournal (op.perform sha a v.journal).2, a, hfresh, rfl, rfl⟩
  | _ => exact he.elim

theorem raises_unwritten_iff (sha : Sha256) (call : FanOutCall) (w : World) :
    (∀ e w', Runs (drawing sha) call.program w (.error e) w' → w'.journal = w.journal) ↔
      call.Sound := by
  constructor
  · intro hraises engine plan hplanned hfinite
    obtain ⟨r, w', h⟩ := program_exists_runs sha call w
    rcases program_runs h with
      ⟨-, -, hinfinite⟩ | ⟨engine', plan', parent, made, hplanned', -, -, hbegun, hend⟩
    · simp [hinfinite engine plan hplanned] at hfinite
    · obtain ⟨rfl, rfl⟩ := Prod.mk.inj (Except.ok.inj (hplanned.symm.trans hplanned'))
      rcases hend with ⟨-, -, hall, hopen⟩ | ⟨⟨e, rfl⟩, -⟩
      · exact ⟨hall, hopen⟩
      · have hfound := hbegun.found
        rw [hraises e w' h, hbegun.new] at hfound
        simp at hfound
  · intro hsound e w' h
    rcases program_runs h with
      ⟨-, hsame, -⟩ | ⟨engine, plan, parent, made, hplanned, hfinite, -, -, ⟨he, -⟩ | ⟨-, hnot⟩⟩
    · rw [hsame]
    · simp at he
    · exact absurd (hsound engine plan hplanned hfinite) hnot

end FanOutCall

end Polaris
