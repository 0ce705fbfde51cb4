import Polaris.Service.FanOut

namespace Polaris
open PyJson PyVal SortedDict Journal Agent Program Relation

/-- What a fan-out run records as the budget of a worker. -/
def RunRecord.persistedAllocation (run : RunRecord) (workerId : String) : Except PyError PyVal := do
  subscript workerId (← subscript "workers" (← subscript "allocation" run.config.value))

structure RunRecord.IsWorkerRun (run child : RunRecord) (worker : WorkerSpec) : Prop where
  spec : subscript "ensemble_worker" child.config.value = .ok (stored worker.toDict)
  budget : ∃ b : BudgetSpec, run.persistedAllocation worker.id = .ok (stored b.toDict) ∧
    child.limits = b.journalBudget

namespace FanOut
variable {engine : EnsembleResearchEngine} {plan : FanOut} {run child : RunRecord} {worker : WorkerSpec}

theorem lastOf_workers {v : PyVal} {workers : List WorkerSpec} (h : worker ∈ workers) :
    lastOf worker.id.1 (workers.map fun w => (w.id.1, v)) = some v := by
  have hfound : ∀ es : List (String × PyVal), (worker.id.1, v) ∈ es → (∀ e ∈ es, e.2 = v) →
      lookup worker.id.1 es = some v := by
    intro es hmem hall
    induction es with
    | nil => simp at hmem
    | cons e es ih =>
        obtain ⟨k, x⟩ := e
        by_cases hk : worker.id.1 = k
        · obtain rfl : x = v := hall (k, x) (by simp)
          simp [lookup, hk]
        · simp only [lookup, if_neg hk]
          refine ih ?_ fun e he => hall e (List.mem_cons_of_mem _ he)
          simpa [hk] using hmem
  refine hfound _ ?_ ?_
  · simpa using ⟨worker, h, rfl⟩
  · simp

theorem persistedAllocation_eq (h : run.config.value = stored (plan.persistedConfig engine))
    (hworker : worker ∈ plan.workers) :
    run.persistedAllocation worker.id = .ok (stored (plan.workerAllocation engine).toDict) := by
  have hallocation : subscript "allocation" run.config.value =
      .ok (stored (plan.allocationDict engine)) := by
    rw [h]
    simp [persistedConfig, dict, subscript, getItem, lookup_storedEntries, lastOf, lookup]
  have hworkers : subscript "workers" (stored (plan.allocationDict engine)) =
      .ok (stored (dict (plan.workers.map fun w => (w.id.1, (plan.workerAllocation engine).toDict)))) := by
    simp [allocationDict, dict, subscript, getItem, lookup_storedEntries, lastOf, lookup]
  have hslot : subscript worker.id (stored (dict (plan.workers.map fun w =>
      (w.id.1, (plan.workerAllocation engine).toDict)))) =
      .ok (stored (plan.workerAllocation engine).toDict) := by
    simp [dict, subscript, getItem, lookup_storedEntries, lastOf_workers hworker]
  rw [RunRecord.persistedAllocation, hallocation]
  change (subscript "workers" _ >>= fun v => subscript worker.id v) = _
  rw [hworkers]
  exact hslot

theorem childConfig_worker {provider : ProviderConfig}
    (h : child.config.value = stored (plan.childConfig engine worker provider)) :
    subscript "ensemble_worker" child.config.value = .ok (stored worker.toDict) ∧
      ∃ es, child.config.value = .map .proxy es ∧
        getOrNone "ensemble_worker" es = stored worker.toDict := by
  rw [h]
  refine ⟨?_, storedEntries _, rfl, ?_⟩ <;>
    simp [subscript, getItem, getOrNone, childConfig, dict, lookup_storedEntries, lastOf, lookup]

theorem childConfig_workers {provider : ProviderConfig}
    (h : child.config.value = stored (plan.childConfig engine worker provider)) :
    ∃ e, EnsembleResearchEngine.workers child = .error e := by
  have hmissing : subscript "workers" child.config.value = .error ⟨.keyError, pyRepr "workers"⟩ := by
    rw [h]
    simp [subscript, getItem, childConfig, dict, lookup_storedEntries, lastOf, lookup]
  exact ⟨_, by rw [EnsembleResearchEngine.workers, hmissing]; rfl⟩

end FanOut

namespace EnsembleResearchEngine

def missingChildren : PyError := ensembleError "parent run is missing durable worker children"

theorem exists_of_forall₂ {α β : Type} {R : α → β → Prop} {xs : List α} {ys : List β} {x : α}
    (h : List.Forall₂ R xs ys) (hx : x ∈ xs) : ∃ y ∈ ys, R x y := by
  induction h with
  | nil => simp at hx
  | cons hhead _ ih =>
      rcases List.mem_cons.1 hx with rfl | hx
      · exact ⟨_, by simp, hhead⟩
      · obtain ⟨y, hy, hxy⟩ := ih hx
        exact ⟨y, List.mem_cons_of_mem _ hy, hxy⟩

theorem foldlM_ok {α β : Type} {f : β → α → Except PyError β} {I : β → Prop} {xs : List α} {b : β}
    (hb : I b) (hstep : ∀ b, I b → ∀ x ∈ xs, ∃ b', f b x = .ok b' ∧ I b') :
    ∃ b', xs.foldlM f b = .ok b' ∧ I b' := by
  induction xs generalizing b with
  | nil => exact ⟨b, rfl, hb⟩
  | cons x xs ih =>
      obtain ⟨b₁, hb₁, hI⟩ := hstep b hb x (by simp)
      obtain ⟨b', hb', hI'⟩ := ih hI fun c hc y hy => hstep c hc y (List.mem_cons_of_mem _ hy)
      refine ⟨b', ?_, hI'⟩
      rw [List.foldlM_cons, hb₁]
      exact hb'

variable {engine : EnsembleResearchEngine} {plan : FanOut} {parent : RunRecord}
  {made : List WorkerSpec} {j j' : Journal}

theorem Begun.children (h : Begun engine plan parent made j j') (hj : j.Linked) :
    List.Forall₂ (plan.ChildOf engine parent.id) (j'.children parent.id) made := by
  obtain ⟨children, hruns, hall⟩ := h.runs
  obtain ⟨a, hcreated⟩ := h.created
  have hmade : children.filter (fun run => run.parentRunId = some parent.id) = children := by
    refine List.filter_eq_self.2 fun child hchild => ?_
    obtain ⟨worker, -, hworker⟩ := exists_of_forall₂ hall hchild
    simp [hworker.parent]
  have hold : j.runs.filter (fun run => run.parentRunId = some parent.id) = [] :=
    hj.children_eq_nil h.new
  rw [Journal.children, hruns, List.filter_append, hold, List.filter_cons_of_neg (by
    simp [hcreated.parent]), hmade]
  exact hall

theorem mapM_missing {α β : Type} {f : α → Except PyError β} {e : PyError} {xs : List α} {x : α}
    (hx : x ∈ xs) (hmissing : f x = .error e) (hall : ∀ y ∈ xs, ∀ e', f y = .error e' → e' = e) :
    xs.mapM f = .error e := by
  induction xs with
  | nil => simp at hx
  | cons y ys ih =>
      cases hy : f y with
      | error e' =>
          rw [List.mapM_cons, hy, hall y (by simp) e' hy]
          rfl
      | ok b =>
          have hne : x ≠ y := by
            rintro rfl
            simp [hmissing] at hy
          have hrest := ih (by simpa [hne] using hx) fun z hz => hall z (List.mem_cons_of_mem _ hz)
          rw [List.mapM_cons, hy, hrest]
          rfl

variable {py : PyBuiltins} {row : RunRecord}

/-- The children that a run finds are those of workers for which a child was created. -/
theorem childrenOf_made (h : ∀ child ∈ j.children row.id, ∃ worker ∈ made, ∃ provider,
      child.config.value = stored (plan.childConfig engine worker provider)) :
    ∃ found, childrenOf py row.id j = .ok found ∧ ∀ c ∈ found, ∃ worker ∈ made, worker.id.1 = c.1 := by
  let runs := j.runs.insertionSort fun a b => a.listedBefore b
  have hlist : (Journal.listRuns none j).1 = .ok runs := by
    simp [runs, Journal.listRuns, Txn.read]
  have hmember : ∀ child ∈ runs.filter (fun child => child.parentRunId = some row.id),
      child ∈ j.children row.id := by
    intro child hchild
    simpa [runs] using hchild
  rw [childrenOf, hlist]
  have hkeys : ∀ c ∈ ([] : List (String × RunRecord)), ∃ worker ∈ made, worker.id.1 = c.1 := by simp
  refine foldlM_ok hkeys ?_
  intro found hfound child hchild
  obtain ⟨worker, hworker, provider, hconfig⟩ := h child (hmember child hchild)
  obtain ⟨-, es, hes, hspec⟩ := FanOut.childConfig_worker hconfig
  have hname : getItem "id" (storedEntries [("id", .str worker.id),
      ("provider_name", .str worker.providerName), ("role", .str worker.role),
      ("instructions", .str worker.instructions)]) = .ok (.str worker.id) := by
    simp [getItem, lookup_storedEntries, lastOf, lookup]
  refine ⟨setKey worker.id.1 child found, ?_, fun c hc => ?_⟩
  · simp only [hes, withGet, Bind.bind, Except.bind, hspec, WorkerSpec.toDict, dict, stored_map]
    rw [hname]
    rfl
  · rcases mem_setKey hc with rfl | hc
    · exact ⟨worker, hworker, rfl⟩
    · exact hfound c hc

/-- A run that lacks a child of one of its workers is not executed. -/
theorem opened_missing (hconfig : row.config.value = stored (plan.persistedConfig engine))
    (hmade : made <+: plan.workers) (hshort : made.length < plan.workers.length)
    (h : ∀ child ∈ j.children row.id, ∃ worker ∈ made, ∃ provider,
      child.config.value = stored (plan.childConfig engine worker provider)) :
    opened py row j = .raised false missingChildren := by
  obtain ⟨found, hfound, hknown⟩ := @childrenOf_made _ _ _ _ py _ h
  obtain ⟨rest, hrest⟩ := hmade
  obtain ⟨worker, hworker, hnot⟩ : ∃ worker ∈ rest, ∀ w ∈ made, w.id ≠ worker.id := by
    cases rest with
    | nil => simp [← hrest] at hshort
    | cons worker rest =>
        have hdistinct := plan.distinct
        rw [← hrest, List.map_append, List.nodup_append] at hdistinct
        exact ⟨worker, by simp, fun w hw => hdistinct.2.2 _ (List.mem_map_of_mem hw) _ (by simp)⟩
  have hlookup : lookup worker.id.1 found = none := by
    cases hl : lookup worker.id.1 found with
    | none => rfl
    | some child =>
        obtain ⟨w, hw, hid⟩ := hknown _ (mem_of_lookup hl)
        exact absurd (Subtype.ext hid) (hnot w hw)
  have hgroup : openGroup py row j = .error missingChildren := by
    have hspecs := AgentService.workers_stored hconfig
    simp only [openGroup, hspecs, hfound, Bind.bind, Except.bind]
    rw [mapM_missing (x := worker) (e := missingChildren)]
    · split <;> rfl
    · simp [← hrest, hworker]
    · simp [hlookup, missingChildren]
    · intro other _ e he
      cases hother : lookup other.id.1 found with
      | none =>
          simp only [hother] at he
          exact (Except.error.inj he).symm
      | some child => simp [hother] at he
  rw [opened, hgroup]

/-- A failure to open the group is the end of an execution. -/
theorem raised_stays {sha : Sha256} {x : Research} {exc : PyError} {w : World} {b : Stage × World}
    (h : ReflTransGen (Step sha x row) (.raised false exc, w) b) :
    b.1 = .raised false exc ∨ b.1 = .failed false := by
  induction h with
  | refl => exact .inl rfl
  | tail _ hstep ih =>
      rcases ih with ih | ih
      · cases hstep <;> simp_all
      · cases hstep <;> simp_all

end EnsembleResearchEngine

namespace AgentService
variable {svc : AgentService} {s s' : ServiceState} {runId : String}

/-! Startup leaves the children of an unfinished parent to it. -/

/-- No task of the run was added. -/
def StartsNone (runId : String) (s s' : ServiceState) : Prop :=
  ∀ t ∈ s'.loop, t.runId = runId → t ∈ s.loop

theorem StartsNone.refl (s : ServiceState) : StartsNone runId s s := fun _ ht _ => ht

theorem StartsNone.trans {s'' : ServiceState} (h : StartsNone runId s s')
    (h' : StartsNone runId s' s'') : StartsNone runId s s'' :=
  fun t ht hrun => h t (h' t ht hrun) hrun

theorem startsNone_onJournal {β : Type} (c : JournalCall β) :
    Txn.Within (StartsNone runId) (svc.onJournal c) := fun _ _ ht _ => ht

theorem startsNone_pure {α : Type} (a : α) :
    Txn.Within (StartsNone runId) (pure a : Service α) := fun s => .refl s

theorem startsNone_bind {α β : Type} {x : Service α} {f : α → Service β}
    (hx : Txn.Within (StartsNone runId) x) (hf : ∀ a, Txn.Within (StartsNone runId) (f a)) :
    Txn.Within (StartsNone runId) (x >>= f) :=
  Txn.Within.bind (R := StartsNone runId) (fun h h' => h.trans h') hx hf

theorem startsNone_schedule {id : String} (hid : id ≠ runId) :
    Txn.Within (StartsNone runId) (schedule id) := by
  intro s t ht hrun
  cases hclosed : s.closed with
  | true => rwa [schedule_refuses id hclosed] at ht
  | false =>
      obtain ⟨task, s', htask⟩ := schedule_returns id hclosed
      rw [htask] at ht
      obtain ⟨-, ⟨-, -, rfl⟩ | ⟨-, -, rfl⟩⟩ := schedule_ok htask
      · exact ht
      · rcases List.mem_append.1 ht with ht | ht
        · exact ht
        · obtain rfl := List.mem_singleton.1 ht
          exact absurd hrun hid

theorem startsNone_skipRecovery (id reason : String) :
    Txn.Within (StartsNone runId) (svc.skipRecovery id reason) :=
  startsNone_bind (startsNone_onJournal _) fun _ => startsNone_pure _

theorem startsNone_recoverRun {parentIds : List String} {run : RunRecord}
    (h : run.id = runId → run.parentRunId.any (· ∈ parentIds) = true) :
    Txn.Within (StartsNone runId) (svc.recoverRun parentIds run) := by
  unfold recoverRun
  split
  · exact startsNone_pure _
  · have hid : run.id ≠ runId := fun hid => absurd (h hid) ‹_›
    have hsteps : ∀ {f : List StepRecord → Bool}, Txn.Within (StartsNone runId) (do
        return f (← svc.onJournal (.listSteps run.id none))) :=
      startsNone_bind (startsNone_onJournal _) fun _ => startsNone_pure _
    refine startsNone_bind hsteps fun leased => ?_
    split
    · exact startsNone_skipRecovery _ _
    · refine startsNone_bind hsteps fun doubtful => ?_
      split
      · exact startsNone_skipRecovery _ _
      · have havailable : Txn.Within (StartsNone runId) (Txn.lift (svc.providersAvailable run)) :=
          (Txn.lift_readOnly _).within StartsNone.refl
        refine startsNone_bind havailable fun available => ?_
        split
        · exact startsNone_skipRecovery _ _
        · exact startsNone_bind (startsNone_schedule hid) fun _ => startsNone_pure _

theorem startsNone_recoverRuns {parentIds : List String} {runs : List RunRecord}
    (h : ∀ run ∈ runs, run.id = runId → run.parentRunId.any (· ∈ parentIds) = true) :
    Txn.Within (StartsNone runId) (svc.recoverRuns parentIds runs) := by
  induction runs with
  | nil => exact startsNone_pure _
  | cons run runs ih =>
      refine startsNone_bind (startsNone_recoverRun (h run (by simp))) fun _ => ?_
      refine startsNone_bind (ih fun r hr => h r (List.mem_cons_of_mem _ hr)) fun _ => ?_
      exact startsNone_pure _

theorem startup_startsNone {parentId : String} (hsteps : s.journal.StepsKeyed)
    (hkeyed : Table.Keyed RunRecord.id s.journal.runs) {child : RunRecord}
    (hchild : child ∈ s.journal.runs) (hparent : child.parentRunId = some parentId)
    (hnonempty : parentId ≠ "") : StartsNone child.id s (svc.startup s).2 := by
  rcases hreclaim : svc.onJournal (.reclaimExpiredLeases none) s with ⟨e | rows, t⟩
  · rw [startup, Txn.bind_of_error hreclaim]
    have hfirst := @startsNone_onJournal svc child.id _ (.reclaimExpiredLeases none) s
    rwa [hreclaim] at hfirst
  · obtain ⟨j, hperform, rfl⟩ := onJournal_ok.1 hreclaim
    have hruns : j.runs = s.journal.runs :=
      same_of_perform (p := .runs) hsteps hperform (by simp [JournalCall.writes])
    rw [startup, Txn.bind_of_ok hreclaim]
    let runs := (j.runs.filter fun r => decide (r.status ∈ [RunStatus.created, .running])).insertionSort
      fun a b => a.listedBefore b
    have hlist : listRuns (some [.created, .running]) (s.withJournal j) = (.ok runs, s.withJournal j) :=
      rfl
    rw [Txn.bind_of_ok hlist]
    have hskipped : ∀ run ∈ runs, run.id = child.id → run.parentRunId.any
        (· ∈ (runs.filterMap RunRecord.parentRunId).filter (· ≠ "")) = true := by
      intro run hrun hid
      have hmem : run ∈ s.journal.runs := by
        rw [← hruns]
        exact (List.mem_filter.1 ((List.mem_insertionSort _).1 hrun)).1
      obtain rfl := hkeyed.eq_of_key hmem hchild hid
      have hlisted : parentId ∈ runs.filterMap RunRecord.parentRunId :=
        List.mem_filterMap.2 ⟨run, hrun, hparent⟩
      simpa [hparent, hnonempty] using hlisted
    exact fun u hu hrun => startsNone_recoverRuns hskipped (s.withJournal j) u hu hrun

end AgentService

/-! A submission that nothing in its way, that is refused, and that is cut off. -/

/-- The run records more workers than it has children. -/
def Journal.HalfCreated (j : Journal) (run : RunRecord) : Prop :=
  ∃ workers, EnsembleResearchEngine.workers run = .ok workers ∧
    (j.children run.id).length < workers.length

/-- No restart on the journal executes a child of the run or completes the run. -/
structure Journal.NeverExecuted (sha : Sha256) (j : Journal) (runId : String) : Prop where
  children : ∀ (svc : AgentService) (s : ServiceState), s.journal = j →
    ∀ child ∈ j.children runId, AgentService.StartsNone child.id s (svc.startup s).2
  parent : ∀ (py : PyBuiltins) (x : EnsembleResearchEngine.Research) (row : RunRecord)
    (executions : List String) (b : EnsembleResearchEngine.Stage × World),
    j.findRun runId = some row →
    ReflTransGen (EnsembleResearchEngine.Step sha x row)
      (EnsembleResearchEngine.opened py row j, ⟨j, executions⟩) b →
    (∃ exc, b.1 = .raised false exc) ∨ b.1 = .failed false

namespace FanOutCall
variable {sha : Sha256} {call : FanOutCall} {w w' : World}

/-- If the call raises, it wrote nothing; if it returns, each worker has its child; and if it was cut
off before each worker had one, then none is ever executed. -/
structure AllOrNothing (sha : Sha256) (call : FanOutCall) (w : World) : Prop where
  raises : ∀ e w', Runs (drawing sha) call.program w (.error e) w' → w'.journal = w.journal
  returns : ∀ run w', Runs (drawing sha) call.program w (.ok run) w' →
    ∃ engine plan, call.planned = .ok (engine, plan) ∧
      List.Forall₂ run.IsWorkerRun (w'.journal.children run.id) plan.workers
  crashes : ∀ w', Halts (drawing sha) call.program w w' → ∀ run ∈ w'.journal.runs,
    w.journal.findRun run.id = none → w'.journal.HalfCreated run →
    ∀ later : List HonestCall, (∀ c ∈ later, ¬ c.1.call.createsChild run.id) →
      (runCalls sha (later.map Subtype.val) w'.journal).NeverExecuted sha run.id

theorem halts_history {α : Type} {p : Agent α} {calls : List HonestCall}
    (hp : p.Only fun e => isHonest e) (h : Halts (drawing sha) p w w')
    (hw : w.journal = history sha calls) : ∃ more, w'.journal = history sha more := by
  induction h generalizing calls with
  | here => exact ⟨calls, hw⟩
  | @call β e k q w w' w'' hexec _ ih =>
      cases e with
      | journal op =>
          obtain ⟨a, -, hperform, -⟩ := hexec
          have hnext : w'.journal = history sha (calls ++ [⟨⟨op, a⟩, hp.1⟩]) := by
            rw [history_concat, ← hw]
            exact (congrArg Prod.snd hperform).symm
          exact ih (hp.2 _) hnext
      | _ => exact hp.1.elim

theorem returns_children (hlinked : w.journal.Linked) {run : RunRecord}
    (h : Runs (drawing sha) call.program w (.ok run) w') :
    ∃ engine plan, call.planned = .ok (engine, plan) ∧
      List.Forall₂ run.IsWorkerRun (w'.journal.children run.id) plan.workers := by
  rcases program_runs h with
    ⟨⟨e, he⟩, -⟩ | ⟨engine, plan, parent, made, hplanned, -, -, hbegun, ⟨hok, rfl, -⟩ | ⟨⟨e, he⟩, -⟩⟩
  · simp at he
  · obtain rfl := Except.ok.inj hok
    refine ⟨engine, plan, hplanned, ?_⟩
    obtain ⟨a, hcreated⟩ := hbegun.created
    have hchildren : List.Forall₂ (fun worker child => worker ∈ plan.workers ∧
        plan.ChildOf engine run.id child worker) plan.workers (w'.journal.children run.id) :=
      (List.forall₂_and_left _ _).2 ⟨fun _ h => h, (hbegun.children hlinked).flip⟩
    refine hchildren.flip.imp fun child worker hchild => ?_
    obtain ⟨hworker, hchild⟩ := hchild
    obtain ⟨provider, hconfig⟩ := hchild.config
    exact ⟨(FanOut.childConfig_worker hconfig).1, _,
      FanOut.persistedAllocation_eq hcreated.config hworker, hchild.limits⟩
  · simp at he

theorem crash_neverExecuted {calls : List HonestCall} (hw : w.journal = history sha calls)
    (h : Halts (drawing sha) call.program w w') {run : RunRecord} (hrun : run ∈ w'.journal.runs)
    (hnew : w.journal.findRun run.id = none) (hhalf : w'.journal.HalfCreated run)
    {later : List HonestCall} (hlater : ∀ c ∈ later, ¬ c.1.call.createsChild run.id) :
    (runCalls sha (later.map Subtype.val) w'.journal).NeverExecuted sha run.id := by
  obtain ⟨more, hmore⟩ := halts_history (program_honest call) h hw
  rcases program_halts h with rfl | ⟨engine, plan, parent, made, -, hmade, hbegun⟩
  · exact absurd rfl (Table.find_none hnew run hrun)
  have hlinked : w.journal.Linked := hw ▸ history_linked sha calls
  obtain ⟨a, hcreated⟩ := hbegun.created
  have hchildren := hbegun.children hlinked
  obtain ⟨workers, hworkers, hshort⟩ := hhalf
  -- a child of the parent records no workers, so the run is the parent
  obtain rfl : run = parent := by
    obtain ⟨children, hruns, hall⟩ := hbegun.runs
    rw [hruns, List.mem_append, List.mem_cons] at hrun
    rcases hrun with hrun | rfl | hrun
    · exact absurd rfl (Table.find_none hnew run hrun)
    · rfl
    · obtain ⟨worker, -, hchild⟩ := EnsembleResearchEngine.exists_of_forall₂ hall hrun
      obtain ⟨provider, hconfig⟩ := hchild.config
      obtain ⟨e, he⟩ := FanOut.childConfig_workers hconfig
      simp [he] at hworkers
  obtain rfl := Except.ok.inj (hworkers.symm.trans (AgentService.workers_stored hcreated.config))
  rw [hchildren.length_eq] at hshort
  have hkeyed : w'.journal.StepsKeyed := hmore ▸ (history_invariant sha more).keyed
  have hsame := @children_runCalls sha _ _ _ hkeyed hlater
  have hhistory : runCalls sha (later.map Subtype.val) w'.journal = history sha (more ++ later) := by
    rw [hmore, history_append]
  refine ⟨fun svc s hs child hchild => ?_, fun py x row executions b hrow hsteps => ?_⟩
  · obtain ⟨hmem, hparent⟩ := mem_children.1 hchild
    refine AgentService.startup_startsNone ?_ ?_ (hs ▸ hmem) hparent (by simp [hcreated.id])
    · rw [hs, hhistory]
      exact (history_invariant sha _).keyed
    · rw [hs, hhistory]
      exact (history_ledger sha _).runsKeyed
  · obtain ⟨row', hrow', horigin⟩ := (later_runCalls hkeyed later).runs _ _ hbegun.found
    obtain rfl := Option.some.inj (hrow'.symm.trans hrow)
    have hid : row'.id = run.id := congrArg (·.1) horigin
    have hconfig : row'.config = run.config := congrArg (·.2.2.2.1) horigin
    have hmissing := @EnsembleResearchEngine.opened_missing engine plan made
      (runCalls sha (later.map Subtype.val) w'.journal) py row'
      (by rw [hconfig]; exact hcreated.config) hmade hshort fun child hchild => by
        have hmem := List.mem_map_of_mem (f := RunRecord.origin) hchild
        rw [hid, hsame] at hmem
        obtain ⟨old, hold, hsameOrigin⟩ := List.mem_map.1 hmem
        obtain ⟨worker, hworker, hofWorker⟩ := EnsembleResearchEngine.exists_of_forall₂ hchildren hold
        obtain ⟨provider, hprovider⟩ := hofWorker.config
        have hsameConfig : old.config = child.config := congrArg (·.2.2.2.1) hsameOrigin
        exact ⟨worker, hworker, provider, hsameConfig ▸ hprovider⟩
    rw [hmissing] at hsteps
    rcases EnsembleResearchEngine.raised_stays hsteps with hb | hb
    · exact .inl ⟨_, hb⟩
    · exact .inr hb

theorem local_stripped : stripWhitespace "local" = "local" ∧ "local" ≠ "" := by decide

theorem reader_stripped : stripWhitespace "reader" = "reader" ∧ "reader" ≠ "" := by decide

theorem read_stripped : stripWhitespace "Read." = "Read." ∧ "Read." ≠ "" := by decide

theorem unlimited_nonnegative : 0 ≤ (none : Option ℚ).getD 0 := by simp

theorem reader_safe : isSafeIdentifier "reader" = true := by decide

/-- The provider of the verifier and of the synthesizer, and no provider for the worker. -/
def unprovided : FanOutCall :=
  .createRun ⟨[("checker", ⟨"model", .int 60⟩), ("writer", ⟨"model", .int 60⟩)], none, none⟩ "Why?"
    [⟨⟨"reader", reader_stripped⟩, ⟨"local", local_stripped⟩, ⟨"reader", reader_stripped⟩,
      ⟨"Read.", read_stripped⟩, reader_safe⟩] "checker" "writer"
    ⟨none, none, none, none, unlimited_nonnegative⟩

end FanOutCall

end Polaris
