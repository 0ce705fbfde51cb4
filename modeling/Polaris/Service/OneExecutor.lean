import Polaris.Library.TaskTable
import Polaris.Service.EventLoop

namespace Polaris
open PyJson SortedDict Journal Relation

namespace AgentService

def board (s : ServiceState) : TaskKind.Board AsyncTask String := ⟨s.loop, s.tasks⟩

def taskKind : TaskKind AsyncTask String := ⟨AsyncTask.runId, AsyncTask.done, AsyncTask.callbackDue⟩

/-- At most one unfinished task works on a run, and it is the one the table names. -/
structure OneExecutor (l : EventLoop) : Prop where
  unique : ∀ (i k : ℕ) (t u : AsyncTask), l.service.loop[i]? = some t → l.service.loop[k]? = some u →
    t.done = false → u.done = false → t.runId = u.runId → i = k
  tabled : ∀ (i : ℕ) (t : AsyncTask), l.service.loop[i]? = some t → t.done = false →
    lookup t.runId l.service.tasks = some i
  own : ∀ a ∈ l.activities, ∀ (i : ℕ) (t : AsyncTask), l.service.loop[i]? = some t → t.done = false →
    t.runId = a.runId → i = a.task

/-- No task is started for a run while a done-callback of the run is due or another task works on
it, and no group takes up a worker whose run has an unfinished task. -/
structure Orderly (l l' : EventLoop) : Prop where
  called : ∀ u ∈ l'.service.loop.drop l.service.loop.length, ∀ t ∈ l.service.loop,
    t.runId = u.runId → t.callbackDue = false
  idle : ∀ u ∈ l'.service.loop.drop l.service.loop.length, ∀ a ∈ l.activities, a.runId ≠ u.runId
  workers : ∀ a ∈ l'.activities.drop l.activities.length, ∀ (i : ℕ) (t : AsyncTask),
    l.service.loop[i]? = some t → t.done = false → t.runId = a.runId → i = a.task

section
variable {svc : AgentService} {x : Execution} {s s' : ServiceState} {i k : ℕ} {t u : AsyncTask}
  {l l' : EventLoop}

theorem Effect.ordered (h : svc.Effect s s') (hs : taskKind.Ordered (board s))
    (hcalled : ∀ u ∈ s'.loop.drop s.loop.length, ∀ t ∈ s.loop, t.runId = u.runId →
      t.callbackDue = false) : taskKind.Ordered (board s') := by
  cases h with
  | wrote _ _ _ hloop htasks | waited _ hloop htasks =>
      have hboard : board s' = board s := by rw [board, board, hloop, htasks]
      rwa [hboard]
  | started runId hdone _ hloop htasks =>
      have hboard : board s' = (board s).start taskKind (.start runId) := by
        rw [board, hloop, htasks]
        rfl
      have hnew : AsyncTask.start runId ∈ s'.loop.drop s.loop.length := by simp [hloop]
      rw [hboard]
      refine hs.start (hs.free ?_ fun t ht hkey => hcalled _ hnew t ht hkey) rfl rfl
      intro i hi t ht
      have := hdone i hi
      rwa [ServiceState.done, show s.loop[i]? = some t from ht] at this
  | asked i _ hloop htasks =>
      cases ht : s.loop[i]? with
      | none =>
          have hboard : board s' = board s := by
            rw [board, board, hloop, htasks, List.modify_eq_self (by simpa using ht)]
          rwa [hboard]
      | some t =>
          have hboard : board s' = (board s).update i { t with cancelRequested := true } := by
            rw [board, hloop, htasks, List.modify_eq_set_getElem?, ht]
            rfl
          rw [hboard]
          exact hs.update ht rfl Iff.rfl (hs.due t (List.mem_of_getElem? ht))

theorem effects_ordered (h : ReflTransGen svc.Effect s s') (hs : taskKind.Ordered (board s))
    (hcalled : ∀ u ∈ s'.loop.drop s.loop.length, ∀ t ∈ s.loop, t.runId = u.runId →
      t.callbackDue = false) : taskKind.Ordered (board s') := by
  induction h using ReflTransGen.head_induction_on with
  | refl => exact hs
  | @head s₀ s₁ hstep hrest ih =>
      have hlonger := hstep.length
      refine ih (hstep.ordered hs fun u hu t ht hkey => ?_) fun u hu t ht hkey => ?_
      · obtain ⟨n, hn⟩ := List.getElem?_of_mem hu
        rw [List.getElem?_drop] at hn
        obtain ⟨v, hv, hsame⟩ := effects_kept hrest hn
        refine hcalled v (List.mem_of_getElem? (i := n) ?_) t ht (hkey.trans hsame.runId.symm)
        rw [List.getElem?_drop, hv]
      · have hmem : u ∈ s'.loop.drop s₀.loop.length := by
          obtain ⟨n, hn⟩ := List.getElem?_of_mem hu
          rw [List.getElem?_drop] at hn
          refine List.mem_of_getElem? (i := s₁.loop.length - s₀.loop.length + n) ?_
          rw [List.getElem?_drop, ← hn]
          congr 1
          omega
        obtain ⟨n, hn⟩ := List.getElem?_of_mem ht
        rcases effects_task (.single hstep) hn with ⟨v, hv, hsame⟩ | hnew
        · rw [hsame.callbackDue]
          exact hcalled u hmem v (List.mem_of_getElem? hv) (hsame.runId.symm.trans hkey)
        · cases hstep with
          | wrote _ _ _ hloop | waited _ hloop => simp [hloop] at hnew
          | started runId _ _ hloop =>
              obtain rfl : t = .start runId := by simpa [hloop] using hnew
              rfl
          | asked k _ hloop =>
              have hlength : s₁.loop.length = s₀.loop.length := by rw [hloop, List.length_modify]
              simp [← hlength] at hnew

/-- What orderly turns keep. -/
structure Held (l : EventLoop) : Prop where
  ordered : taskKind.Ordered (board l.service)
  own : ∀ a ∈ l.activities, ∀ (i : ℕ) (t : AsyncTask), l.service.loop[i]? = some t → t.done = false →
    t.runId = a.runId → i = a.task

theorem Held.oneExecutor (h : Held l) : OneExecutor l where
  unique _ _ _ _ ht hu hdone hdone' hrun :=
    h.ordered.unique (K := taskKind) (b := board l.service) ht hu hrun (.inl hdone) (.inl hdone')
  tabled i t ht hdone := h.ordered.tabled i t ht (.inl hdone)
  own := h.own

theorem Held.effects (h : Held l) (heffects : ReflTransGen svc.Effect l.service s')
    (horderly : Orderly l { l with service := s' }) : Held { l with service := s' } where
  ordered := effects_ordered heffects h.ordered horderly.called
  own a ha i t ht hdone hrun := by
    rcases effects_task heffects ht with ⟨u, hu, hsame⟩ | hnew
    · exact h.own a ha i u hu (hsame.done ▸ hdone) (hsame.runId.symm.trans hrun)
    · exact absurd hrun.symm (horderly.idle t hnew a ha)

/-- A turn that replaces one task of the loop, keeping its run, and leaves some activities out. -/
theorem Held.set {activities : List Activity} (h : Held l) (ht : l.service.loop[i]? = some t)
    (hrun : u.runId = t.runId) (hdone : u.done = false → t.done = false)
    (hordered : taskKind.Ordered (board s')) (hloop : s'.loop = l.service.loop.set i u)
    (hactivities : ∀ a ∈ activities, a ∈ l.activities ∨ a.runId = t.runId ∧ a.task = i ∧
      t.done = false) : Held ⟨s', activities⟩ where
  ordered := hordered
  own a ha k v hv hopen hrun' := by
    obtain ⟨w, hw, hopen', hwrun⟩ : ∃ w, l.service.loop[k]? = some w ∧ w.done = false ∧
        w.runId = a.runId := by
      simp only [hloop] at hv
      by_cases hk : i = k
      · subst hk
        rw [List.getElem?_set_self (List.getElem?_eq_some_iff.1 ht).1] at hv
        obtain rfl := Option.some.inj hv
        exact ⟨t, ht, hdone hopen, hrun.symm.trans hrun'⟩
      · rw [List.getElem?_set_ne hk] at hv
        exact ⟨v, hv, hopen, hrun'⟩
    rcases hactivities a ha with hold | ⟨harun, rfl, htopen⟩
    · exact h.own a hold k w hw hopen' hwrun
    · exact (h.oneExecutor).unique _ _ w t hw ht hopen' htopen (hwrun.trans harun)

theorem Turn.held (h : svc.Turn x l l') (horderly : Orderly l l') (hl : Held l) : Held l' := by
  cases h with
  | request r => exact hl.effects (serve_effects r l.service) horderly
  | cancelled runId => exact hl.effects (awaited_effects runId _ l.service) horderly
  | remember => exact ⟨hl.ordered, hl.own⟩
  | outside => exact ⟨hl.ordered, hl.own⟩
  | @first i t ht hcreated =>
      have hopen : t.done = false := by simp [AsyncTask.done, hcreated]
      refine hl.set ht (u := { t with status := .running }) rfl (fun _ => hopen) ?_ rfl fun a ha => ?_
      · exact hl.ordered.update ht rfl (by simp [TaskKind.Open, taskKind, AsyncTask.done, hcreated])
          fun hdue => absurd (hl.ordered.due t (List.mem_of_getElem? ht) hdue) (by simp [taskKind, hopen])
      · rcases List.mem_append.1 ha with ha | ha
        · exact .inl ha
        · obtain rfl : a = _ := by simpa using ha
          exact .inr ⟨rfl, rfl, hopen⟩
  | worker spec child ht =>
      refine ⟨hl.ordered, fun a ha i t ht hdone hrun => ?_⟩
      rcases List.mem_append.1 ha with ha | ha
      · exact hl.own a ha i t ht hdone hrun
      · exact horderly.workers a (by simpa using ha) i t ht hdone hrun
  | @work n i runId _ _ _ _ _ ha =>
      refine ⟨hl.ordered, fun a ha' k t ht hdone hrun => ?_⟩
      rcases List.mem_or_eq_of_mem_set ha' with ha' | rfl
      · exact hl.own a ha' k t ht hdone hrun
      · exact hl.own _ (List.mem_of_getElem? ha) k t ht hdone hrun
  | leave =>
      refine ⟨hl.ordered, fun a ha => ?_⟩
      exact hl.own a (List.mem_of_mem_eraseIdx ha)
  | @finish i t q ht hrunning =>
      have hopen : t.done = false := by simp [AsyncTask.done, hrunning]
      refine hl.set ht (u := t.finish (.ofResult q)) rfl (fun _ => hopen) ?_ rfl fun a ha =>
        .inl (List.mem_of_mem_filter ha)
      exact hl.ordered.update ht rfl (by simp [TaskKind.Open, taskKind, hopen, AsyncTask.finish])
        fun _ => rfl
  | @dropped i t ht hcreated =>
      have hopen : t.done = false := by simp [AsyncTask.done, hcreated]
      refine hl.set ht (u := t.finish .cancelled) rfl (fun _ => hopen) ?_ rfl fun a ha => .inl ha
      exact hl.ordered.update ht rfl (by simp [TaskKind.Open, taskKind, hopen, AsyncTask.finish])
        fun _ => rfl
  | @interrupted others i t q s ht hrunning _ hhandled =>
      have hopen : t.done = false := by simp [AsyncTask.done, hrunning]
      obtain ⟨hloop, htasks⟩ := @runJournal_keeps svc _ others (taskCancelled t.runId) l.service
      rw [hhandled] at hloop htasks
      have hboard : board (s.setTask i (t.finish (.ofHandler q))) =
          (board l.service).update i (t.finish (.ofHandler q)) := by
        rw [board, ServiceState.setTask_loop, ServiceState.setTask_tasks, hloop, htasks]
        rfl
      refine hl.set ht (u := t.finish (.ofHandler q)) rfl (fun _ => hopen) ?_ ?_ fun a ha =>
        .inl (List.mem_of_mem_filter ha)
      · rw [hboard]
        exact hl.ordered.update ht rfl (by simp [TaskKind.Open, taskKind, hopen, AsyncTask.finish])
          fun _ => rfl
      · rw [ServiceState.setTask_loop, hloop]
  | @callback i t ht hdue =>
      have hdone : t.done = true := hl.ordered.due t (List.mem_of_getElem? ht) hdue
      refine hl.set ht (u := { t with callbackDue := false }) rfl id ?_ rfl fun a ha => .inl ha
      refine hl.ordered.callback ht rfl (.inr hdue) ?_
      rintro (hopen | hdue')
      · exact Bool.false_ne_true (hopen.symm.trans hdone)
      · exact Bool.false_ne_true hdue'

theorem Fresh.held (h : Fresh l) : Held l where
  ordered := by
    rw [board, h.loop, h.tasks]
    exact TaskKind.ordered_empty
  own a ha := by simp [h.activities] at ha

def OrderlyTurn (svc : AgentService) (x : Execution) (l l' : EventLoop) : Prop :=
  svc.Turn x l l' ∧ Orderly l l'

theorem oneExecutor_of_orderly {l₀ : EventLoop} (hfresh : Fresh l₀)
    (hrun : ReflTransGen (svc.OrderlyTurn x) l₀ l) : OneExecutor l := by
  refine Held.oneExecutor ?_
  induction hrun with
  | refl => exact hfresh.held
  | tail _ hturn ih => exact hturn.1.held hturn.2 ih

end

/-! A run that is taken up again before the done-callback of its first task ran. -/

namespace Overtaken

def runId : String := "run_66666666666666666666666666666666"

def clock (t : Timestamp) : Ambient := ⟨t, t, t, "66666666666666666666666666666666"⟩

def calls : List HonestCall := [
  ⟨⟨Retried.creator.createRun "go" "single" ⟨none, none, none, none⟩ none, clock 1⟩, trivial⟩,
  ⟨⟨.requestApproval runId none (dict []) "tool_execution", clock 2⟩, trivial⟩]

def execution : Execution where
  turns := 1
  workerRuntime _ _ := .error (ensembleError "no worker")
  workerArtifact _ := false
  accept _ _ _ := return ()
  research _ := return ()
  recordedConfig _ := .ok Retried.runtime.config

def others : Answers :=
  ⟨clock, fun _ _ => .ok .null, fun _ _ => .ok .null, fun _ => .error (typeError "complete"), []⟩

def start : ServiceState where
  journal := history Retried.sha calls
  memory := ⟨[], 0, []⟩
  loop := []
  tasks := []
  taskFailures := []
  closed := false
  clock n := clock (3 + n)
  ticks := 0

def resumed : ServiceState := (Retried.service.serve (.resume runId) start).2

def running : AsyncTask := ⟨runId, .running, false, false⟩

def executed : Except PyError Unit × ServiceState :=
  Retried.service.runJournal others (Retried.service.execute execution runId)
    (resumed.setTask 0 running)

theorem executed_eq : Retried.service.runJournal others
    (Retried.service.execute execution runId) (resumed.setTask 0 running) =
      (executed.1, executed.2) := by
  unfold executed
  exact (Prod.eta _).symm

def finished : ServiceState := executed.2.setTask 0 (running.finish (.ofResult executed.1))

def overtaken : ServiceState := (Retried.service.serve (.resume runId) finished).2

theorem loops : resumed.loop = [.start runId] ∧
    overtaken.loop = [running.finish (.ofResult executed.1), .start runId] ∧
    overtaken.tasks = [(runId, 1)] := by
  decide +kernel

theorem resumes : Retried.service.Turn execution ⟨start, []⟩ ⟨resumed, []⟩ :=
  .request (.resume runId)

theorem orderly : Orderly ⟨start, []⟩ ⟨resumed, []⟩ where
  called _ _ _ ht := absurd ht List.not_mem_nil
  idle _ _ _ ha := absurd ha List.not_mem_nil
  workers _ ha := absurd ha List.not_mem_nil

end Overtaken

section
variable {svc : AgentService} {x : Execution} {runId : String} {others : Answers}
  {s s₁ s₂ s₃ : ServiceState} {q : Except PyError Unit} {ran : AsyncTask}

/-- A run is resumed again when its task has ended and the done-callback of the task is due. -/
theorem turns_overtaken (hran : ran = ⟨runId, .running, false, false⟩)
    (hresumed : (svc.serve (.resume runId) s).2 = s₁) (hloop : s₁.loop = [.start runId])
    (hexecuted : svc.runJournal others (svc.execute x runId) (s₁.setTask 0 ran) = (q, s₂))
    (hagain : (svc.serve (.resume runId) (s₂.setTask 0 (ran.finish (.ofResult q)))).2 = s₃)
    (hloops : s₃.loop = [ran.finish (.ofResult q), .start runId])
    (htasks : s₃.tasks = [(runId, 1)]) :
    ∃ s', ReflTransGen (svc.Turn x) ⟨s, []⟩ ⟨s', []⟩ ∧ s'.loop[1]? = some (.start runId) ∧
      lookup runId s'.tasks = none := by
  subst hran
  have hresume : svc.Turn x ⟨s, []⟩ ⟨s₁, []⟩ := hresumed ▸ .request (.resume runId)
  have hfirst : svc.Turn x ⟨s₁, []⟩ ⟨s₁.setTask 0 ⟨runId, .running, false, false⟩,
      [⟨0, runId, svc.execute x runId⟩]⟩ :=
    .first (t := .start runId) (by rw [hloop]; rfl) rfl rfl
  have hwork : ReflTransGen (svc.Turn x) ⟨s₁.setTask 0 ⟨runId, .running, false, false⟩,
      [⟨0, runId, svc.execute x runId⟩]⟩ ⟨s₂, [⟨0, runId, .done q⟩]⟩ := by
    have hturns := @turns_runJournal svc x 0
      ⟨s₁.setTask 0 ⟨runId, .running, false, false⟩, [⟨0, runId, svc.execute x runId⟩]⟩ others runId
      (svc.execute x runId) rfl
    rwa [hexecuted] at hturns
  have hkept : s₂.loop = [⟨runId, .running, false, false⟩] := by
    have hkeeps := (@runJournal_keeps svc _ others (svc.execute x runId)
      (s₁.setTask 0 ⟨runId, .running, false, false⟩)).1
    rw [hexecuted, ServiceState.setTask_loop, hloop] at hkeeps
    exact hkeeps
  have hfinish := @Turn.finish svc x ⟨s₂, [⟨0, runId, .done q⟩]⟩ 0 ⟨runId, .running, false, false⟩ q
    (by rw [hkept]; rfl) rfl rfl
  have hresume' := @Turn.request svc x ⟨s₂.setTask 0
    (AsyncTask.finish (.ofResult q) ⟨runId, .running, false, false⟩), []⟩ (.resume runId)
  simp only [hagain] at hresume'
  refine ⟨_, .tail (.tail (.tail (.trans (.tail (.single hresume) hfirst) hwork) hfinish) hresume')
    (.callback (i := 0) (by rw [hloops]; rfl) rfl), ?_, ?_⟩
  · rw [ServiceState.setTask_loop, taskDone, hloops]
    rfl
  · rw [ServiceState.setTask_tasks, taskDone, htasks]
    simp [lookup, AsyncTask.finish]

end

theorem oneExecutor_of_orderly_resumed : OneExecutor ⟨Overtaken.resumed, []⟩ :=
  @oneExecutor_of_orderly _ _ _ ⟨Overtaken.start, []⟩ ⟨rfl, rfl, rfl⟩
    (.single ⟨Overtaken.resumes, Overtaken.orderly⟩)

theorem not_one_executor : ¬ ∀ (svc : AgentService) (x : Execution) (l₀ l : EventLoop), Fresh l₀ →
    ReflTransGen (svc.Turn x) l₀ l → OneExecutor l := by
  intro h
  obtain ⟨hresumed, hovertaken, htasks⟩ := Overtaken.loops
  obtain ⟨s, hturns, htask, hlost⟩ := @turns_overtaken Retried.service Overtaken.execution _
    Overtaken.others Overtaken.start _ Overtaken.executed.2 Overtaken.overtaken Overtaken.executed.1
    Overtaken.running rfl rfl hresumed Overtaken.executed_eq rfl hovertaken htasks
  have htabled := (h _ _ ⟨Overtaken.start, []⟩ ⟨s, []⟩ ⟨rfl, rfl, rfl⟩ hturns).tabled 1 _ htask rfl
  rw [show (AsyncTask.start Overtaken.runId).runId = Overtaken.runId from rfl, hlost] at htabled
  exact absurd htabled (by simp)

end AgentService

end Polaris
