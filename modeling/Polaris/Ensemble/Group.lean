import Polaris.Service.Execution

namespace Polaris
open PyJson SortedDict Journal Relation Agent

namespace EnsembleResearchEngine

/-- How far a worker of a group has come. -/
inductive Progress where
  | waiting
  | working (rest : Agent Unit)
  | turnedAway
  | ended (r : Except PyError Unit)
  | dropped

structure Member where
  worker : WorkerSpec
  child : RunRecord
  progress : Progress

namespace Progress

def holdsSlot : Progress → Bool
  | .working _ => true
  | _ => false

def isOpen : Progress → Bool
  | .waiting | .working _ => true
  | _ => false

def isTurnedAway : Progress → Bool
  | .turnedAway => true
  | _ => false

def hasReturned : Progress → Bool
  | .ended (.ok _) => true
  | _ => false

end Progress

def leaseRefusal (worker : WorkerSpec) : PyError :=
  ⟨.runtimeError, "worker " ++ Journal.pyRepr worker.id ++
    " is not recoverable until its lease expires"⟩

/-- What `_execute_worker` does for a child on which no step is leased. -/
def proceed (x : Phases) (worker : WorkerSpec) (child : RunRecord) : Agent Unit := do
  let parent ← getRun (child.parentRunId.getD "")
  let runtime ← .ofExcept (x.workerRuntime parent worker)
  match ← Agent.execute runtime child.id x.turns with
  | none => return ()
  | some result =>
      if result.status ≠ .completed then
        .throw (ensembleError ("worker " ++ Journal.pyRepr worker.id ++
          " did not complete: " ++ result.status.value))
      else x.accept worker child result

def Progress.ofSteps (x : Phases) (worker : WorkerSpec) (child : RunRecord) :
    Except PyError (List StepRecord) → Progress
  | .error e => .ended (.error e)
  | .ok steps =>
      if steps.any fun step => step.status ∈ [StepStatus.leased, .executing] then .turnedAway
      else .working (proceed x worker child)

/-- A worker up to its first await; it reads the steps of its child. -/
def beginWorker (x : Phases) (worker : WorkerSpec) (child : RunRecord) (j : Journal) : Progress :=
  if child.status = .completed ∧ x.workerArtifact child.id = true then .ended (.ok ())
  else if child.status ∈ [RunStatus.failed, .cancelled] then
    .ended (.error (ensembleError ("worker " ++ Journal.pyRepr worker.id ++ " child run is " ++
      child.status.value)))
  else .ofSteps x worker child (Journal.listSteps child.id none j).1

/-- What a worker has still to do. -/
def Progress.rest (worker : WorkerSpec) : Progress → Agent Unit
  | .working rest => rest
  | .turnedAway => .throw (leaseRefusal worker)
  | .ended r => .done r
  | .waiting | .dropped => return ()

def Member.failure (m : Member) : Option PyError :=
  match m.progress with
  | .turnedAway => some (leaseRefusal m.worker)
  | .ended (.error e) => some e
  | _ => none

def isEnsembleError (e : PyError) : Bool := e.cls = .other "EnsembleResearchError"

def exceptionGroup (message : String) (count : ℕ) : PyError :=
  ⟨.other "ExceptionGroup", message ++ " (" ++ toString count ++ " sub-exception" ++
    (if count = 1 then "" else "s") ++ ")"⟩

/-- What leaves the group; an exception that an `except*` clause raises leaves it in a new group. -/
def groupError (errors : List PyError) : PyError :=
  if errors.any isEnsembleError then
    if errors.all isEnsembleError then exceptionGroup "" 1 else exceptionGroup "" 2
  else exceptionGroup "unhandled errors in a TaskGroup" errors.length

/-- A call that the engine makes for the parent itself. -/
structure ProviderStep where
  keyName : String
  sequence : ℤ

def verification : ProviderStep := ⟨"claim-extraction-verification", 10000⟩

def synthesis : ProviderStep := ⟨"synthesis", 20000⟩

/-- What `execute` does once its workers have returned. -/
inductive Part where
  | provider (step : ProviderStep)
  | outputs

def parts : List Part := [.provider verification, .provider synthesis, .outputs]

/-- The use of a step that is committed or ready, and the outputs, beyond the parts modelled here. -/
structure Research extends Phases where
  complete : RunRecord → ProviderStep → StepRecord → Agent Unit
  writeOutputs : RunRecord → Agent Unit

/-- Where an execution of a fan-out run stands; a failure tells whether it is for a lease. -/
inductive Stage where
  | group (slots : ℤ) (members : List Member)
  | alone (left : List Part)
  | working (rest : Agent Unit) (left : List Part)
  | raised (forLease : Bool) (exc : PyError)
  | failed (forLease : Bool)

def childrenOf (py : PyBuiltins) (parentId : String) (j : Journal) :
    Except PyError (List (String × RunRecord)) := do
  let runs ← (Journal.listRuns none j).1
  (runs.filter fun child => child.parentRunId = some parentId).foldlM (fun children child => do
    match getOrNone "ensemble_worker" (← withGet child.config.value) with
    | .map _ worker => return setKey (py.strOf (← getItem "id" worker)) child children
    | _ => return children) []

/-- The size of the semaphore, and the workers with their children. -/
def openGroup (py : PyBuiltins) (run : RunRecord) (j : Journal) :
    Except PyError (ℤ × List (WorkerSpec × RunRecord)) := do
  let specs ← workers run
  let children ← childrenOf py run.id j
  if children.all fun c => specs.any fun worker => worker.id = c.1 then
    let members ← specs.mapM fun worker =>
      match lookup worker.id children with
      | some child => .ok (worker, child)
      | none => .error (ensembleError "parent run is missing durable worker children")
    return (← py.int (← subscript "max_workers" run.config.value), members)
  else .error (ensembleError "parent run is missing durable worker children")

def opened (py : PyBuiltins) (run : RunRecord) (j : Journal) : Stage :=
  match openGroup py run j with
  | .ok (slots, members) => .group slots (members.map fun m => ⟨m.1, m.2, .waiting⟩)
  | .error e => .raised false e

def failParent (runId : String) (exc : PyError) : Agent Unit := do
  let _ ← appendEvent runId "ensemble.failed"
    (dict [("error", .str exc.cls.name), ("message", .str exc.message)]) none
  let run ← getRun runId
  if run.status ∈ [RunStatus.created, .running, .paused] then
    let _ ← markRunStatus runId .failed
    return ()
  else return ()

/-- The handlers of `execute` and of the task around it. -/
def closeExecution (runId : String) (exc : PyError) : Agent Unit := do
  if isEnsembleError exc then
    match ← (failParent runId exc).attempt with
    | .ok _ => AgentService.taskFailed runId exc
    | .error e => AgentService.taskFailed runId e
  else if exc.cls = .budgetExceededError then
    match ← (failParent runId exc).attempt with
    | .ok _ => AgentService.taskFailed runId (ensembleError exc.message)
    | .error e => AgentService.taskFailed runId e
  else AgentService.taskFailed runId exc

/-- `create_step` of a step of the parent. -/
def createProviderStep (run : RunRecord) (step : ProviderStep) (request : PyVal) :
    AgentCall StepRecord :=
  .journal (.createStep run.id "ensemble-provider" step.keyName request SafetyClass.readOnly.value
    (some step.sequence))

def notRecoverable (step : ProviderStep) (status : StepStatus) : PyError :=
  ensembleError (step.keyName ++ " step is not recoverable yet (" ++ status.value ++ ")")

/-- What the engine makes of the answer to `create_step`. -/
def Stage.ofStep (x : Research) (run : RunRecord) (step : ProviderStep) (left : List Part) :
    Except PyError StepRecord → Stage
  | .error e => .raised false e
  | .ok row =>
      if row.status = .committed ∨ row.status = .ready then .working (x.complete run step row) left
      else .raised (row.status ∈ [StepStatus.leased, .executing]) (notRecoverable step row.status)

def uninterrupted (sha : Sha256) : Program.System AgentCall PyError World :=
  ⟨AgentCall.exec sha, Eq⟩

/-- What happens between one await and the next in an execution of the run. -/
inductive Step (sha : Sha256) (x : Research) (run : RunRecord) : Stage × World → Stage × World → Prop
  | outside {stage : Stage} {w w' : World} (c : HonestCall) :
      w'.journal = c.1.after sha w.journal → Step sha x run (stage, w) (stage, w')
  | begins {slots : ℤ} {members : List Member} {n : ℕ} {m : Member} {w : World} :
      members[n]? = some m → m.progress = .waiting →
      (members.countP fun m => m.progress.holdsSlot) < slots →
      Step sha x run (.group slots members, w) (.group slots (members.set n { m with
        progress := beginWorker x.toPhases m.worker m.child w.journal }), w)
  | works {slots : ℤ} {members : List Member} {n : ℕ} {m : Member} {β : Type} {e : AgentCall β}
      {k : Except PyError β → Agent Unit} {q : Except PyError β} {w w' : World} :
      members[n]? = some m → m.progress = .working (.call e k) → e.exec sha w q w' →
      Step sha x run (.group slots members, w) (.group slots (members.set n { m with
        progress := .working (k q) }), w')
  | ends {slots : ℤ} {members : List Member} {n : ℕ} {m : Member} {r : Except PyError Unit}
      {w : World} : members[n]? = some m → m.progress = .working (.done r) →
      Step sha x run (.group slots members, w) (.group slots (members.set n { m with
        progress := .ended r }), w)
  /-- The group gives up the workers that are left once one has failed. -/
  | drops {slots : ℤ} {members : List Member} {n : ℕ} {m : Member} {w : World} :
      members[n]? = some m → m.progress.isOpen = true → (∃ m ∈ members, m.failure.isSome) →
      Step sha x run (.group slots members, w) (.group slots (members.set n { m with
        progress := .dropped }), w)
  | gathered {slots : ℤ} {members : List Member} {w : World} :
      (∀ m ∈ members, m.progress.hasReturned = true) →
      Step sha x run (.group slots members, w) (.alone parts, w)
  | gaveUp {slots : ℤ} {members : List Member} {w : World} :
      (∀ m ∈ members, m.progress.isOpen = false) → (∃ m ∈ members, m.failure.isSome) →
      Step sha x run (.group slots members, w)
        (.raised (members.any fun m => m.progress.isTurnedAway)
          (groupError (members.filterMap Member.failure)), w)
  | asks {step : ProviderStep} {left : List Part} {request : PyVal} {q : Except PyError StepRecord}
      {w w' : World} : (createProviderStep run step request).exec sha w q w' →
      Step sha x run (.alone (.provider step :: left), w) (.ofStep x run step left q, w')
  | writes {left : List Part} {w : World} :
      Step sha x run (.alone (.outputs :: left), w) (.working (x.writeOutputs run) left, w)
  | goesOn {β : Type} {e : AgentCall β} {k : Except PyError β → Agent Unit} {left : List Part}
      {q : Except PyError β} {w w' : World} : e.exec sha w q w' →
      Step sha x run (.working (.call e k) left, w) (.working (k q) left, w')
  | returns {left : List Part} {w : World} :
      Step sha x run (.working (.done (.ok ())) left, w) (.alone left, w)
  | throws {exc : PyError} {left : List Part} {w : World} :
      Step sha x run (.working (.done (.error exc)) left, w) (.raised false exc, w)
  | closes {forLease : Bool} {exc : PyError} {r : Except PyError Unit} {w w' : World} :
      Program.Runs (uninterrupted sha) (closeExecution run.id exc) w r w' →
      Step sha x run (.raised forLease exc, w) (.failed forLease, w')

/-- A step that finds a lease in its way: of a worker on its child, or of the run on a step of its
own. -/
inductive MeetsLease (sha : Sha256) (x : Research) (run : RunRecord) :
    Stage × World → Stage × World → Prop
  | worker {slots : ℤ} {members : List Member} {n : ℕ} {m : Member} {w : World} :
      members[n]? = some m → m.progress = .waiting →
      ¬ (m.child.status = .completed ∧ x.workerArtifact m.child.id = true) →
      m.child.status ∉ [RunStatus.failed, .cancelled] → (w.journal.findRun m.child.id).isSome →
      w.journal.HasActiveLease m.child.id →
      MeetsLease sha x run (.group slots members, w)
        (.group slots (members.set n { m with
          progress := .turnedAway }), w)
  | provider {step : ProviderStep} {left : List Part} {request : PyVal} {row : StepRecord}
      {w w' : World} : (createProviderStep run step request).exec sha w (.ok row) w' →
      row.status = .leased ∨ row.status = .executing →
      MeetsLease sha x run (.alone (.provider step :: left), w)
        (.raised true (notRecoverable step row.status), w')

def Stage.ForLease : Stage → Prop
  | .group _ members => ∃ m ∈ members, m.progress.isTurnedAway = true
  | .raised forLease _ | .failed forLease => forLease = true
  | _ => False

def Stage.IsOver : Stage → Prop
  | .alone [] => True
  | .failed _ => True
  | _ => False

section
variable {sha : Sha256} {x : Research} {run : RunRecord} {worker : WorkerSpec} {child : RunRecord}
  {w w' : World}

theorem listSteps_exec {runId : String} {q : Except PyError (List StepRecord)}
    (h : (AgentCall.journal (.listSteps runId none)).exec sha w q w') :
    q = (Journal.listSteps runId none w.journal).1 ∧ w' = w := by
  obtain ⟨a, hperform, hexecutions⟩ := h
  have hsame : w'.journal = w.journal := by
    rcases hlist : Journal.listSteps runId none w.journal with ⟨_ | steps, j⟩
    · have hatomic := (JournalCall.listSteps runId none).perform_atomic sha a w.journal _
        (congrArg Prod.fst hlist)
      rwa [hperform] at hatomic
    · obtain ⟨-, rfl⟩ := Prod.mk.inj (hperform.symm.trans hlist)
      exact (listSteps_none_ok hlist).2.1
  refine ⟨(congrArg Prod.fst hperform).symm, ?_⟩
  cases w
  cases w'
  simp_all

/-- An uninterrupted worker does what `beginWorker` leaves it. -/
theorem executeWorker_runs {r : Except PyError Unit}
    (h : Program.Runs (uninterrupted sha) (executeWorker x.toPhases worker child) w r w') :
    Program.Runs (uninterrupted sha) ((beginWorker x.toPhases worker child w.journal).rest worker)
      w r w' := by
  unfold executeWorker at h
  unfold beginWorker
  split at h
  · rwa [if_pos ‹_›]
  · rw [if_neg ‹_›]
    split at h
    · rwa [if_pos ‹_›]
    · rw [if_neg ‹_›]
      cases h with
      | @call _ _ _ q _ _ w₁ _ hexec hrest =>
          have hread : (AgentCall.journal (.listSteps child.id none)).exec sha w q w₁ := hexec
          obtain ⟨rfl, rfl⟩ := listSteps_exec hread
          cases hsteps : (Journal.listSteps child.id none w₁.journal).1 with
          | error e =>
              rw [hsteps] at hrest
              exact hrest
          | ok steps =>
              rw [hsteps] at hrest
              have hguarded : Program.Runs (uninterrupted sha)
                  (if steps.any fun step => step.status ∈ [StepStatus.leased, .executing] then
                    .throw (leaseRefusal worker) else proceed x.toPhases worker child) w₁ r w' := hrest
              simp only [Progress.ofSteps]
              split
              · rwa [if_pos ‹_›] at hguarded
              · rwa [if_neg ‹_›] at hguarded

theorem beginWorker_turnedAway {j : Journal} :
    beginWorker x.toPhases worker child j = .turnedAway ↔
      ¬ (child.status = .completed ∧ x.workerArtifact child.id = true) ∧
        child.status ∉ [RunStatus.failed, .cancelled] ∧ (j.findRun child.id).isSome ∧
        j.HasActiveLease child.id := by
  unfold beginWorker
  split
  · simp_all
  · split
    · simp_all
    · by_cases hfound : (j.findRun child.id).isSome
      · have hactive : ((orderedSteps child.id none j).any fun step =>
            step.status ∈ [StepStatus.leased, .executing]) = true ↔
            j.HasActiveLease child.id := by
          simp [HasActiveLease, mem_orderedSteps, and_assoc, Decidable.or_iff_not_imp_left]
        simp only [listSteps_found hfound, Progress.ofSteps]
        split
        · simp_all
        · simp_all
      · rcases hlist : Journal.listSteps child.id none j with ⟨_ | steps, j'⟩
        · simp [Progress.ofSteps, hfound]
        · exact absurd (listSteps_none_ok hlist).2.2 hfound

variable {a b : Stage × World} {members : List Member} {n : ℕ} {m : Member} {progress : Progress}

theorem turnedAway_set (hm : members[n]? = some m) (hbefore : m.progress.isTurnedAway = false) :
    (∃ m' ∈ members.set n { m with
        progress := progress }, m'.progress.isTurnedAway = true) ↔
      (∃ m' ∈ members, m'.progress.isTurnedAway = true) ∨ progress.isTurnedAway = true := by
  obtain ⟨hn, hget⟩ := List.getElem?_eq_some_iff.1 hm
  constructor
  · rintro ⟨m', hm', haway⟩
    rcases List.mem_or_eq_of_mem_set hm' with hm' | rfl
    · exact .inl ⟨m', hm', haway⟩
    · exact .inr haway
  · rintro (⟨m', hm', haway⟩ | haway)
    · refine ⟨m', ?_, haway⟩
      obtain ⟨k, hk, rfl⟩ := List.getElem_of_mem hm'
      have hne : n ≠ k := by
        rintro rfl
        rw [hget, hbefore] at haway
        simp at haway
      exact List.mem_iff_getElem.2 ⟨k, by simpa using hk, by rw [List.getElem_set_ne hne]⟩
    · exact ⟨_, List.mem_set hn _, haway⟩

/-- A step leaves a lease to blame where there was one, or where it met one. -/
theorem Step.forLease (h : Step sha x run a b) :
    b.1.ForLease ↔ a.1.ForLease ∨ MeetsLease sha x run a b := by
  have hmet : MeetsLease sha x run a b → b.1.ForLease := by
    intro hmeets
    cases hmeets with
    | worker hm => exact (turnedAway_set hm (by simp_all [Progress.isTurnedAway])).2 (.inr rfl)
    | provider => rfl
  refine ⟨fun hb => ?_, fun h' => h'.elim (fun ha => ?_) hmet⟩
  · cases h with
    | outside => exact .inl hb
    | @begins _ _ _ m w hm hwaiting =>
        rcases (turnedAway_set hm (by simp [hwaiting, Progress.isTurnedAway])).1 hb with ha | haway
        · exact .inl ha
        · have hbegun : beginWorker x.toPhases m.worker m.child w.journal = .turnedAway := by
            cases hprogress : beginWorker x.toPhases m.worker m.child w.journal <;>
              simp_all [Progress.isTurnedAway]
          obtain ⟨hcompleted, hstatus, hfound, hleased⟩ := beginWorker_turnedAway.1 hbegun
          rw [hbegun]
          exact .inr (.worker hm hwaiting hcompleted hstatus hfound hleased)
    | works hm hworking =>
        rcases (turnedAway_set hm (by simp [hworking, Progress.isTurnedAway])).1 hb with ha | haway
        · exact .inl ha
        · simp [Progress.isTurnedAway] at haway
    | ends hm hworking =>
        rcases (turnedAway_set hm (by simp [hworking, Progress.isTurnedAway])).1 hb with ha | haway
        · exact .inl ha
        · simp [Progress.isTurnedAway] at haway
    | @drops _ _ _ m _ hm hopen =>
        rcases (turnedAway_set hm (by cases hp : m.progress <;> simp_all [Progress.isTurnedAway,
          Progress.isOpen])).1 hb with ha | haway
        · exact .inl ha
        · simp [Progress.isTurnedAway] at haway
    | gathered => exact hb.elim
    | gaveUp => exact .inl (by simpa [Stage.ForLease] using hb)
    | @asks step left request q w w' hexec =>
        cases q with
        | error e => simp [Stage.ofStep, Stage.ForLease] at hb
        | ok row =>
            simp only [Stage.ofStep] at hb ⊢
            split at hb
            · exact hb.elim
            · rw [if_neg ‹_›]
              have hactive : decide (row.status ∈ [StepStatus.leased, .executing]) = true := hb
              rw [hactive]
              exact .inr (.provider hexec (by simpa using hactive))
    | writes | goesOn | returns => exact hb.elim
    | throws => simp [Stage.ForLease] at hb
    | closes => exact .inl hb
  · cases h with
    | outside | closes => exact ha
    | begins hm hwaiting =>
        exact (turnedAway_set hm (by simp [hwaiting, Progress.isTurnedAway])).2 (.inl ha)
    | works hm hworking | ends hm hworking =>
        exact (turnedAway_set hm (by simp [hworking, Progress.isTurnedAway])).2 (.inl ha)
    | @drops _ _ _ m _ hm hopen =>
        exact (turnedAway_set hm (by cases hp : m.progress <;> simp_all [Progress.isTurnedAway,
          Progress.isOpen])).2 (.inl ha)
    | gathered hreturned =>
        obtain ⟨m, hm, haway⟩ := ha
        have := hreturned m hm
        cases hp : m.progress <;> simp_all [Progress.isTurnedAway, Progress.hasReturned]
    | gaveUp => simpa [Stage.ForLease] using ha
    | asks | writes | goesOn | returns | throws => exact ha.elim

/-- An execution blames a lease if and only if one of its steps met one. -/
theorem forLease_iff (h : ReflTransGen (Step sha x run) a b) (ha : ¬ a.1.ForLease) :
    b.1.ForLease ↔ ∃ c d, ReflTransGen (Step sha x run) a c ∧ Step sha x run c d ∧
      MeetsLease sha x run c d ∧ ReflTransGen (Step sha x run) d b := by
  constructor
  · intro hb
    induction h with
    | refl => exact absurd hb ha
    | @tail c d hac hcd ih =>
        rcases hcd.forLease.1 hb with hc | hmeets
        · obtain ⟨c', d', hac', hstep, hmeets, hlater⟩ := ih hc
          exact ⟨c', d', hac', hstep, hmeets, hlater.tail hcd⟩
        · exact ⟨c, d, hac, hcd, hmeets, .refl⟩
  · clear h
    rintro ⟨c, d, -, hstep, hmeets, hlater⟩
    induction hlater with
    | refl => exact hstep.forLease.2 (.inr hmeets)
    | tail _ hstep' ih => exact hstep'.forLease.2 (.inl ih)

/-! The handlers leave a run that was still open marked as failed. -/

def Closed (runId : String) (failed : Bool) (w : World) : Prop :=
  ∃ row, w.journal.findRun runId = some row ∧
    (row.status = .failed ∨ failed = false ∧ row.status.isTerminal = false)

def closes (runId : String) {β : Type} : AgentCall β → Prop
  | .journal (.getRun _) => True
  | .journal (.appendEvent ..) => True
  | .journal (.markRunStatus id status) => id = runId ∧ status = .failed
  | _ => False

variable {runId : String}

theorem Closed.of_failed {failed : Bool} (h : Closed runId true w) : Closed runId failed w := by
  obtain ⟨row, hrow, hstatus | ⟨hfalse, -⟩⟩ := h
  · exact ⟨row, hrow, .inl hstatus⟩
  · simp at hfalse

theorem Closed.exec {failed : Bool} {β : Type} {e : AgentCall β} {q : Except PyError β}
    (h : Closed runId failed w) (he : closes runId e) (hexec : e.exec sha w q w') :
    Closed runId failed w' := by
  obtain ⟨row, hrow, hstatus⟩ := h
  cases e with
  | journal c =>
      obtain ⟨a, hperform, -⟩ := hexec
      cases q with
      | error exc =>
          have hsame : w'.journal = w.journal := by
            have hatomic := c.perform_atomic sha a w.journal exc (congrArg Prod.fst hperform)
            rwa [hperform] at hatomic
          exact ⟨row, hsame ▸ hrow, hstatus⟩
      | ok b =>
          cases c with
          | getRun =>
              obtain ⟨-, hsame⟩ := requireRun_ok.1 hperform
              exact ⟨row, hsame ▸ hrow, hstatus⟩
          | appendEvent =>
              obtain ⟨column, -, hadded⟩ := appendEvent_ok hperform
              exact ⟨row, hadded ▸ hrow, hstatus⟩
          | markRunStatus id status =>
              obtain ⟨hid, rfl⟩ := he
              subst hid
              obtain ⟨row', hrow', ⟨-, hsame⟩ | ⟨-, column, hmarked⟩⟩ := markRunStatus_ok hperform
              · exact ⟨row, hsame ▸ hrow, hstatus⟩
              · have hupdated := @findRun_updateRun _ id _ (.withStatus a .failed) _ (fun _ => rfl)
                  hrow'
                rw [if_pos (Table.find_key hrow')] at hupdated
                exact ⟨_, by rw [hmarked]; exact hupdated, .inl rfl⟩
          | _ => exact he.elim
  | _ => exact he.elim

def closingRules (sha : Sha256) (runId : String) (failed : Bool) :
    Program.Rules (uninterrupted sha) where
  inv := Closed runId failed
  guard e _ := closes runId e
  env_inv hw h := h ▸ hw
  exec_inv hw he h := Closed.exec hw he h

abbrev Closing (sha : Sha256) (runId : String) {α : Type} (p : Agent α)
    (Q : Except PyError α → World → Prop) (w : World) : Prop :=
  Program.Safe (closingRules sha runId false) p Q w

theorem unchanged (h : ReflTransGen (uninterrupted sha).env w w') : w = w' := by
  induction h with
  | refl => rfl
  | tail _ hsame ih => exact ih.trans hsame

theorem Closing.keeps {α : Type} {p : Agent α} {failed : Bool}
    (hp : p.Only (closes runId)) (hw : Closed runId failed w) :
    Closing sha runId p (fun _ w' => Closed runId failed w') w := by
  induction p generalizing w with
  | done r => exact hw
  | call e k ih =>
      rintro w₁ henv -
      obtain rfl := unchanged henv
      exact ⟨hp.1, fun r w₂ hexec _ => ih r (hp.2 r) (hw.exec hp.1 hexec)⟩

theorem Closing.marks {row : RunRecord} (hrow : w.journal.findRun runId = some row)
    (hopen : row.status.isTerminal = false) : Closing sha runId (Agent.markRunStatus runId .failed)
      (fun r w' => (∃ run, r = .ok run) ∧ Closed runId true w') w := by
  refine Program.Safe.perform fun w₁ henv _ => ⟨⟨rfl, rfl⟩, fun r w₂ hexec _ => ?_⟩
  obtain rfl := unchanged henv
  obtain ⟨a, hperform, -⟩ := hexec
  have htarget : RunStatus.failed ∈ row.status.transitions := by
    cases hstatus : row.status <;> simp_all [RunStatus.isTerminal, RunStatus.transitions]
  obtain ⟨j, hmarks, hmarked⟩ := @markRunStatus_returns a _ _ _ .failed hrow htarget
  obtain ⟨rfl, rfl⟩ := Prod.mk.inj (hperform.symm.trans hmarks)
  exact ⟨⟨_, rfl⟩, _, hmarked, .inl rfl⟩

/-- The handler of a task whose run is still open. -/
theorem Closing.taskFailed {exc : PyError} (hw : Closed runId false w) :
    Closing sha runId (AgentService.taskFailed runId exc) (fun _ w' => Closed runId true w') w := by
  have hevent : (do
      let _ ← appendEvent runId "service.task_failed"
        (dict [("error_type", .str exc.cls.name), ("message", .str exc.message)]) none
      return () : Agent Unit).Only (closes runId) :=
    (Program.only_perform trivial).bind fun _ => Program.only_pure _
  refine Program.Safe.bind (Q := fun r w' => ∃ run, r = .ok run ∧ w'.journal.findRun runId = some run)
    (Program.Safe.perform fun w₁ henv _ => ⟨trivial, fun r w₂ hexec _ => ?_⟩) hw
    (fun current w₁ hw₁ hcurrent => ?_) (fun e w₁ _ he => by simp at he)
  · obtain rfl := unchanged henv
    obtain ⟨row, hrow, -⟩ := hw
    obtain ⟨a, hperform, -⟩ := hexec
    have hread : (JournalCall.getRun runId).perform sha a w.journal = (.ok row, w.journal) :=
      requireRun_ok.2 ⟨hrow, rfl⟩
    obtain ⟨rfl, hsame⟩ := Prod.mk.inj (hperform.symm.trans hread)
    exact ⟨row, rfl, hsame ▸ hrow⟩
  · obtain ⟨run, hrun, hfound⟩ := hcurrent
    obtain rfl := Except.ok.inj hrun
    obtain ⟨row, hrow, hstatus⟩ := hw₁
    obtain rfl := Option.some.inj (hrow.symm.trans hfound)
    split
    · refine Closing.keeps hevent ⟨row, hrow, .inl ?_⟩
      rcases hstatus with hfailed | ⟨-, hopen⟩
      · exact hfailed
      · simp_all
    · have hopen : row.status.isTerminal = false := by simp_all
      have hw : Closed runId false w₁ := ⟨row, hrow, hstatus⟩
      have hattempt : Closing sha runId (Agent.markRunStatus runId .failed).attempt
          (fun r w' => (∃ run, r = .ok (.ok run)) ∧ Closed runId true w') w₁ :=
        Program.Safe.andThen (Closing.marks hrow hopen) hw
          fun r w₂ _ ⟨⟨run, hr⟩, hmarked⟩ => ⟨⟨run, by rw [hr]⟩, hmarked⟩
      have hsuppress : Closing sha runId (suppress .invalidTransitionError
          (Agent.markRunStatus runId .failed)) (fun r w' => r = .ok () ∧ Closed runId true w') w₁ := by
        refine Program.Safe.bind hattempt hw (fun q w₂ _ hq => ?_) (fun e w₂ _ he => by simp at he)
        obtain ⟨⟨run, hrun⟩, hmarked⟩ := hq
        obtain rfl := Except.ok.inj hrun
        exact ⟨rfl, hmarked⟩
      exact Program.Safe.bind hsuppress hw (fun _ w₂ _ hmarked => Closing.keeps hevent hmarked.2)
        (fun e w₂ _ he => by simp at he)

theorem Closing.failParent {exc : PyError} (hw : Closed runId false w) :
    Closing sha runId (EnsembleResearchEngine.failParent runId exc)
      (fun _ w' => Closed runId false w') w := by
  refine Closing.keeps (Program.Only.bind (Program.only_perform trivial) fun _ =>
    Program.Only.bind (Program.only_perform trivial) fun run => ?_) hw
  split
  · exact (Program.only_perform ⟨rfl, rfl⟩).bind fun _ => Program.only_pure _
  · exact Program.only_pure _

/-- An execution that fails while its run is open leaves it marked as failed. -/
theorem closeExecution_fails {exc : PyError} {r : Except PyError Unit} {row : RunRecord}
    (h : Program.Runs (uninterrupted sha) (closeExecution runId exc) w r w')
    (hrow : w.journal.findRun runId = some row) (hopen : row.status.isTerminal = false) :
    ∃ row', w'.journal.findRun runId = some row' ∧ row'.status = .failed := by
  have hw : Closed runId false w := ⟨row, hrow, .inr ⟨rfl, hopen⟩⟩
  have hattempt : Closing sha runId (failParent runId exc).attempt
      (fun q w' => (∃ r, q = .ok r) ∧ Closed runId false w') w :=
    Program.Safe.andThen (Closing.failParent hw) hw fun r w' _ hw' => ⟨⟨r, rfl⟩, hw'⟩
  have hsafe : Closing sha runId (closeExecution runId exc) (fun _ w' => Closed runId true w') w := by
    unfold closeExecution
    split
    · refine Program.Safe.bind hattempt hw (fun r w₁ hw₁ _ => ?_) (fun e w₁ _ he => by simp at he)
      cases r <;> exact Closing.taskFailed hw₁
    · split
      · refine Program.Safe.bind hattempt hw (fun r w₁ hw₁ _ => ?_) (fun e w₁ _ he => by simp at he)
        cases r <;> exact Closing.taskFailed hw₁
      · exact Closing.taskFailed hw
  obtain ⟨row', hrow', hfailed | ⟨hfalse, -⟩⟩ := (hsafe.runs hw h).1
  · exact ⟨row', hrow', hfailed⟩
  · simp at hfalse

end

end EnsembleResearchEngine

end Polaris
