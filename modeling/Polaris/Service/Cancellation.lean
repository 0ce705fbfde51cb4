import Polaris.Runtime.Reads
import Polaris.Service.ProviderCheck
import Polaris.Service.Shutdown

namespace Polaris
open PyJson SortedDict Journal Relation Agent

/-- A call that leases a step or starts a provider call or a tool call. -/
def AgentCall.starts {β : Type} : AgentCall β → Prop
  | .journal (.claimReadyStep ..) => True
  | .journal (.startProviderCall ..) => True
  | .execute .. => True
  | .reconcile .. => True
  | .complete .. => True
  | _ => False

def Journal.Cancelled (runId : String) (j : Journal) : Prop :=
  ∃ run, j.findRun runId = some run ∧ run.status = .cancelled

/-- A journal in which the run was cancelled. -/
structure World.Over (runId : String) (w : World) : Prop where
  keyed : w.journal.StepsKeyed
  cancelled : w.journal.Cancelled runId

namespace Journal
variable {sha : Sha256} {a : Ambient} {j : Journal} {runId : String}

theorem cancelled_of_perform {β : Type} {c : JournalCall β} (hk : j.StepsKeyed)
    (h : j.Cancelled runId) : (c.perform sha a j).2.Cancelled runId := by
  obtain ⟨run, hrun, hstatus⟩ := h
  rcases hc : c.perform sha a j with ⟨e | b, j'⟩
  · have hsame : (c.perform sha a j).2 = j := c.perform_atomic sha a j e (by rw [hc])
    rw [hc] at hsame
    obtain rfl : j' = j := hsame
    exact ⟨run, hrun, hstatus⟩
  · obtain ⟨run', hrun', -, hover⟩ := runs_follow hk hc hrun
    exact ⟨run', hrun', (hover (by rw [hstatus]; rfl)).trans hstatus⟩

end Journal

/-- After the cancellation anybody may do anything, but the execution of the run starts nothing. -/
def quietRules (sha : Sha256) (runId : String) :
    Program.Rules (⟨AgentCall.exec sha, fun w w' => w.Over runId → w'.Over runId⟩ :
      Program.System AgentCall PyError World) where
  inv w := w.Over runId
  guard e _ := ¬ e.starts
  env_inv hw h := h hw
  exec_inv {_ e w _ _} hw _ h := by
    cases e with
    | journal c =>
        obtain ⟨a, hperform, -⟩ := h
        refine ⟨stepsKeyed_of_perform hw.keyed hperform, ?_⟩
        have hcancelled := @cancelled_of_perform sha a _ _ _ c hw.keyed hw.cancelled
        rwa [hperform] at hcancelled
    | execute => exact ⟨h.1 ▸ hw.keyed, h.1 ▸ hw.cancelled⟩
    | _ =>
        obtain rfl := h
        exact hw

abbrev Quiet (sha : Sha256) (runId : String) {α : Type} (p : Agent α)
    (Q : Except PyError α → World → Prop) (w : World) : Prop :=
  Program.Safe (quietRules sha runId) p Q w

namespace Quiet
variable {sha : Sha256} {runId : String} {w : World} {α β : Type}

theorem of_only {p : Agent α} (hp : p.Only fun e => ¬ e.starts) :
    Quiet sha runId p (fun _ _ => True) w := by
  induction p generalizing w with
  | done r => trivial
  | call e k ih => exact fun w₁ _ _ => ⟨hp.1, fun r w₂ _ _ => ih r (hp.2 r)⟩

theorem of_readOnly {p : Agent α} (hp : Agent.ReadOnly p) : Quiet sha runId p (fun _ _ => True) w :=
  of_only (hp.mono fun e he => by
    cases e with
    | journal c => cases c <;> first | exact id | exact he.elim
    | _ => exact he.elim)

theorem bind {p : Agent α} {f : α → Agent β} {Q : Except PyError α → World → Prop}
    {Q' : Except PyError β → World → Prop} (hp : Quiet sha runId p Q w) (hw : w.Over runId)
    (hok : ∀ a w', w'.Over runId → Q (.ok a) w' → Quiet sha runId (f a) Q' w')
    (herror : ∀ e w', Q' (.error e) w') : Quiet sha runId (p >>= f) Q' w :=
  Program.Safe.bind hp hw hok fun e w' _ _ => herror e w'

theorem getRun : Quiet sha runId (Agent.getRun runId)
    (fun r _ => ∀ run, r = .ok run → run.id = runId ∧ run.status = .cancelled) w :=
  Program.Safe.perform fun w₁ _ hw₁ => ⟨id, fun r w₂ hexec _ run hr => by
    obtain ⟨a, hperform, -⟩ := hexec
    rw [hr] at hperform
    obtain ⟨hfound, -⟩ := requireRun_ok.1 hperform
    obtain ⟨row, hrow, hstatus⟩ := hw₁.cancelled
    obtain rfl := Option.some.inj (hfound.symm.trans hrow)
    exact ⟨Table.find_key hfound, hstatus⟩⟩

theorem result {rt : AgentRuntime} (hw : w.Over runId) : Quiet sha runId (Agent.result rt runId)
    (fun r _ => ∀ result, r = .ok result → result.status = .cancelled) w := by
  refine bind getRun hw (fun run w₁ hw₁ hrun => ?_) (by simp)
  refine bind (of_readOnly reconstruct_readOnly) hw₁ (fun conversation w₂ hw₂ _ => ?_) (by simp)
  refine bind (of_readOnly (journal_readOnly trivial)) hw₂ (fun calls w₃ hw₃ _ => ?_) (by simp)
  refine bind (of_only (Program.only_ofExcept _)) hw₃ (fun usage w₄ _ _ => ?_) (by simp)
  intro result hresult
  obtain rfl := Except.ok.inj hresult
  exact (hrun run rfl).2

theorem execute {rt : AgentRuntime} {turns : ℕ} (hw : w.Over runId) :
    Quiet sha runId (Agent.execute rt runId turns)
      (fun r _ => ∀ result, r = .ok (some result) → result.status = .cancelled) w := by
  refine bind getRun hw (fun run w₁ hw₁ hrun => ?_) (by simp)
  rw [if_pos (by simp [(hrun run rfl).2])]
  refine bind (result hw₁) hw₁ (fun r w₂ _ hr => ?_) (by simp)
  rintro _ ⟨⟩
  exact hr r rfl

theorem executeWorker {x : EnsembleResearchEngine.Phases} {worker : WorkerSpec} {child : RunRecord}
    (hid : child.id = runId) (hw : w.Over runId) :
    Quiet sha runId (EnsembleResearchEngine.executeWorker x worker child) (fun _ _ => True) w := by
  subst hid
  unfold EnsembleResearchEngine.executeWorker
  split
  · trivial
  · split
    · trivial
    · refine bind (of_readOnly (journal_readOnly trivial)) hw (fun steps w₁ hw₁ _ => ?_) (by simp)
      split
      · trivial
      · refine bind (of_readOnly (journal_readOnly trivial)) hw₁ (fun parent w₂ hw₂ _ => ?_) (by simp)
        refine bind (of_only (Program.only_ofExcept _)) hw₂ (fun rt w₃ hw₃ _ => ?_) (by simp)
        refine bind (execute hw₃) hw₃ (fun result w₄ _ hresult => ?_) (by simp)
        cases result with
        | none => trivial
        | some result =>
            have hstatus := hresult result rfl
            simp only [hstatus]
            trivial

theorem executeFanOut {x : EnsembleResearchEngine.Phases} (hw : w.Over runId) :
    Quiet sha runId (EnsembleResearchEngine.execute x runId) (fun _ _ => True) w := by
  refine bind getRun hw (fun run w₁ _ hrun => ?_) (by simp)
  have hstatus := (hrun run rfl).2
  split
  · trivial
  · rw [if_neg (by simp [hstatus]), if_pos (by simp [hstatus])]
    trivial

theorem executeRun {svc : AgentService} {x : Execution} {run : RunRecord} (hid : run.id = runId)
    (hw : w.Over runId) : Quiet sha runId (svc.executeRun x run) (fun _ _ => True) w := by
  subst hid
  unfold AgentService.executeRun
  split
  · dsimp only
    split
    · refine bind (of_only (Program.only_ofExcept _)) hw (fun config w₁ hw₁ _ => ?_) (by simp)
      refine bind (of_only (Program.only_ofExcept _)) hw₁ (fun rt w₂ hw₂ _ => ?_) (by simp)
      exact bind (execute hw₂) hw₂ (fun _ _ _ _ => trivial) (by simp)
    · trivial
  · split
    · refine bind (of_only (Program.only_ofExcept _)) hw (fun config w₁ hw₁ _ => ?_) (by simp)
      refine bind (of_only (Program.only_ofExcept _)) hw₁ (fun rt w₂ hw₂ _ => ?_) (by simp)
      exact executeFanOut hw₂
    · trivial

theorem taskFailed {exc : PyError} :
    Quiet sha runId (AgentService.taskFailed runId exc) (fun _ _ => True) w := by
  refine of_only ?_
  have hjournal : ∀ {β : Type} {c : JournalCall β}, ¬ (AgentCall.journal c).starts →
      (journal c).Only fun e => ¬ e.starts := fun hc => Program.only_perform hc
  unfold AgentService.taskFailed AgentService.closeRun
  refine Program.Only.bind (hjournal id) fun run => ?_
  split
  · exact (hjournal id).bind fun _ => Program.only_pure _
  · refine Program.Only.bind ?_ fun _ => (hjournal id).bind fun _ => Program.only_pure _
    refine (hjournal id).attempt.bind fun r => ?_
    cases r with
    | ok => exact Program.only_pure _
    | error e =>
        change (if e.cls = .invalidTransitionError then pure () else Program.throw e : Agent Unit).Only _
        split
        · exact Program.only_pure _
        · exact Program.only_throw _

/-- A task that begins after the cancellation starts nothing. -/
theorem executeTask {svc : AgentService} {x : Execution} (hw : w.Over runId) :
    Quiet sha runId (svc.execute x runId) (fun _ _ => True) w := by
  refine bind getRun hw (fun run w₁ hw₁ hrun => ?_) (by simp)
  have hattempt : Quiet sha runId (svc.executeRun x run).attempt (fun _ _ => True) w₁ :=
    Program.Safe.andThen (executeRun (hrun run rfl).1 hw₁) hw₁ fun _ _ _ _ => trivial
  refine bind hattempt hw₁ (fun r w₂ hw₂ _ => ?_) (by simp)
  cases r with
  | ok => trivial
  | error exc => exact bind taskFailed hw₂ (fun _ _ _ _ => trivial) (by simp)

end Quiet

namespace AgentService
variable {svc : AgentService} {x : Execution} {runId : String} {s s' : ServiceState}
  {l l' : EventLoop}

/-- A turn in which an execution of the run leases a step or starts a provider call or a tool call. -/
def Begins (svc : AgentService) (runId : String) (l l' : EventLoop) : Prop :=
  ∃ (n i : ℕ) (β : Type) (e : AgentCall β) (k : Except PyError β → Agent Unit)
    (q : Except PyError β) (w : World), l.activities[n]? = some ⟨i, runId, .call e k⟩ ∧
      e.exec svc.memory.sha ⟨l.service.journal, []⟩ q w ∧
      l' = ⟨l.service.withJournal w.journal, l.activities.set n ⟨i, runId, k q⟩⟩ ∧ e.starts

/-- The turn in which `cancel` returns with the run cancelled, at once or after its await. -/
inductive CancelReturns (svc : AgentService) (runId : String) (l : EventLoop) : EventLoop → Prop
  | atOnce {run : RunRecord} {s : ServiceState} :
      svc.cancel runId l.service = (.ok (.inl run), s) → run.status = .cancelled →
      CancelReturns svc runId l { l with service := s }
  | later {i : ℕ} {run : RunRecord} {s : ServiceState} : l.service.done i = true →
      svc.awaited runId i l.service = (.ok run, s) → run.status = .cancelled →
      CancelReturns svc runId l { l with service := s }

theorem Effect.keyed (h : svc.Effect s s') (hk : s.journal.StepsKeyed) : s'.journal.StepsKeyed := by
  cases h with
  | wrote c a hjournal => exact hjournal ▸ stepsKeyed_of_perform hk rfl
  | waited hjournal | started _ _ hjournal | asked _ hjournal => exact hjournal ▸ hk

theorem Effect.cancelled (h : svc.Effect s s') (hk : s.journal.StepsKeyed)
    (hc : s.journal.Cancelled runId) : s'.journal.Cancelled runId := by
  cases h with
  | wrote c a hjournal => exact hjournal ▸ cancelled_of_perform hk hc
  | waited hjournal | started _ _ hjournal | asked _ hjournal => exact hjournal ▸ hc

theorem effects_keyed (h : ReflTransGen svc.Effect s s') (hk : s.journal.StepsKeyed) :
    s'.journal.StepsKeyed := by
  induction h with
  | refl => exact hk
  | tail _ hstep ih => exact hstep.keyed ih

theorem effects_cancelled (h : ReflTransGen svc.Effect s s') (hk : s.journal.StepsKeyed)
    (hc : s.journal.Cancelled runId) : s'.journal.Cancelled runId := by
  induction h with
  | refl => exact hc
  | tail hsteps hstep ih => exact hstep.cancelled (effects_keyed hsteps hk) ih

/-- A turn changes the journal as the methods of the service do. -/
theorem Turn.effects (h : svc.Turn x l l') : ∃ s, ReflTransGen svc.Effect l.service s ∧
    s.journal = l'.service.journal := by
  cases h with
  | request r => exact ⟨_, serve_effects r l.service, rfl⟩
  | cancelled r => exact ⟨_, awaited_effects r _ l.service, rfl⟩
  | outside c =>
      exact ⟨l.service.withJournal (c.1.after svc.memory.sha l.service.journal),
        .single (.wrote c.1.call c.1.ambient rfl rfl rfl), rfl⟩
  | @work _ _ _ _ e _ _ w _ hexec =>
      cases e with
      | journal c =>
          obtain ⟨a, hperform, -⟩ := hexec
          refine ⟨l.service.withJournal w.journal, .single (.wrote c a ?_ rfl rfl), rfl⟩
          rw [hperform, ServiceState.withJournal_journal]
      | execute => exact ⟨_, .refl, hexec.1.symm⟩
      | _ =>
          obtain rfl := hexec
          exact ⟨_, .refl, rfl⟩
  | @interrupted others i t q s _ _ _ hhandled =>
      have heffects := @runJournal_effects svc _ others (taskCancelled t.runId) l.service
      rw [hhandled] at heffects
      exact ⟨s, heffects, rfl⟩
  | remember | first | worker | leave | finish | dropped | callback => exact ⟨_, .refl, rfl⟩

theorem Turn.keyed (h : svc.Turn x l l') (hk : l.service.journal.StepsKeyed) :
    l'.service.journal.StepsKeyed := by
  obtain ⟨s, heffects, hjournal⟩ := h.effects
  exact hjournal ▸ effects_keyed heffects hk

theorem Turn.keepsCancelled (h : svc.Turn x l l') (hk : l.service.journal.StepsKeyed)
    (hc : l.service.journal.Cancelled runId) : l'.service.journal.Cancelled runId := by
  obtain ⟨s, heffects, hjournal⟩ := h.effects
  exact hjournal ▸ effects_cancelled heffects hk hc

/-- The run was cancelled, and whatever executes it starts nothing any more. -/
structure Silent (svc : AgentService) (runId : String) (l : EventLoop) : Prop where
  isOver : (World.mk l.service.journal []).Over runId
  quiet : ∀ a ∈ l.activities, a.runId = runId →
    Quiet svc.memory.sha runId a.rest (fun _ _ => True) ⟨l.service.journal, []⟩

theorem Silent.turn (h : Silent svc runId l) (hturn : svc.Turn x l l') : Silent svc runId l' := by
  have hover : (World.mk l'.service.journal []).Over runId :=
    ⟨hturn.keyed h.isOver.keyed, hturn.keepsCancelled h.isOver.keyed h.isOver.cancelled⟩
  have hkept : ∀ a ∈ l.activities, a.runId = runId →
      Quiet svc.memory.sha runId a.rest (fun _ _ => True) ⟨l'.service.journal, []⟩ :=
    fun a ha hrun => Program.Safe.env (h.quiet a ha hrun) fun _ => hover
  refine ⟨hover, ?_⟩
  cases hturn with
  | request | cancelled | remember | outside | dropped | callback => exact hkept
  | first =>
      intro a ha hrun
      rcases List.mem_append.1 ha with ha | ha
      · exact hkept a ha hrun
      · obtain rfl : a = _ := by simpa using ha
        subst hrun
        exact Quiet.executeTask hover
  | worker spec child =>
      intro a ha hrun
      rcases List.mem_append.1 ha with ha | ha
      · exact hkept a ha hrun
      · obtain rfl : a = _ := by simpa using ha
        exact Quiet.executeWorker hrun hover
  | @work n i r β e k q w ha hexec =>
      intro a ha' hrun
      rcases List.mem_or_eq_of_mem_set ha' with ha' | rfl
      · exact hkept a ha' hrun
      · subst hrun
        obtain ⟨hguard, hnext⟩ := h.quiet _ (List.mem_of_getElem? ha) rfl _ .refl h.isOver
        have hw : w.Over r := (quietRules svc.memory.sha r).exec_inv h.isOver hguard hexec
        exact Program.Safe.env (hnext q w hexec hw) fun _ => hover
  | leave => exact fun a ha => hkept a (List.mem_of_mem_eraseIdx ha)
  | finish | interrupted => exact fun a ha => hkept a (List.mem_of_mem_filter ha)

theorem Silent.not_begins (h : Silent svc runId l) : ¬ svc.Begins runId l l' := by
  rintro ⟨n, i, β, e, k, q, w, ha, -, -, hstarts⟩
  obtain ⟨hguard, -⟩ := h.quiet _ (List.mem_of_getElem? ha) rfl _ .refl h.isOver
  exact hguard hstarts

theorem markCancelled_cancels {run : RunRecord} (hstatus : run.status = .cancelled)
    (h : svc.markCancelled runId s = (.ok run, s')) : s'.journal.Cancelled runId := by
  simp only [markCancelled, Txn.bind_ok, Txn.ite_ok, Txn.pure_ok, onJournal_ok] at h
  obtain ⟨current, _, ⟨j, hread, rfl⟩, ⟨-, rfl, rfl⟩ | ⟨-, j', hmark, rfl⟩⟩ := h
  · obtain ⟨hfound, rfl⟩ := requireRun_ok.1 hread
    exact ⟨current, hfound, hstatus⟩
  · obtain ⟨row, hrow, ⟨hsame, rfl⟩ | ⟨-, column, rfl⟩⟩ := markRunStatus_ok hmark
    · exact ⟨row, hrow, hsame⟩
    · have hupdated := @findRun_updateRun _ runId _ (.withStatus
        ((s.withJournal j).clock (s.withJournal j).ticks) .cancelled) _
        (fun _ => rfl) hrow
      refine ⟨_, hupdated, ?_⟩
      rw [if_pos (Table.find_key hrow)]
      rfl

theorem awaited_cancels {run : RunRecord} {i : ℕ} (hstatus : run.status = .cancelled)
    (h : svc.awaited runId i s = (.ok run, s')) : s'.journal.Cancelled runId := by
  simp only [awaited, Txn.bind_ok, Txn.read_ok] at h
  obtain ⟨status, _, ⟨-, rfl⟩, h⟩ := h
  split at h
  · simp at h
  · exact markCancelled_cancels hstatus h

theorem cancel_cancels {run : RunRecord} (hstatus : run.status = .cancelled)
    (h : svc.cancel runId s = (.ok (.inl run), s')) : s'.journal.Cancelled runId := by
  simp only [cancel, Txn.bind_ok, Txn.ite_ok, Txn.pure_ok, onJournal_ok, Txn.read_ok] at h
  obtain ⟨current, _, ⟨j, hread, rfl⟩, ⟨-, hsame, rfl⟩ | ⟨-, h⟩⟩ := h
  · obtain ⟨hfound, rfl⟩ := requireRun_ok.1 hread
    obtain rfl := Sum.inl.inj hsame
    exact ⟨current, hfound, hstatus⟩
  · obtain ⟨entry, _, ⟨-, rfl⟩, h⟩ := h
    cases entry with
    | none =>
        simp only [Txn.bind_ok, Txn.pure_ok] at h
        obtain ⟨marked, _, hmarked, hsame, rfl⟩ := h
        obtain rfl := Sum.inl.inj hsame
        exact markCancelled_cancels hstatus hmarked
    | some task =>
        simp only [Txn.bind_ok, Txn.read_ok, Txn.ite_ok, Txn.pure_ok, reduceCtorEq, false_and, and_false,
          exists_false, or_false] at h
        obtain ⟨finished, _, -, -, marked, _, hmarked, hsame, rfl⟩ := h
        obtain rfl := Sum.inl.inj hsame
        exact awaited_cancels hstatus hmarked

theorem CancelReturns.effects (h : svc.CancelReturns runId l l') :
    ReflTransGen svc.Effect l.service l'.service ∧ l'.activities = l.activities ∧
      l'.service.journal.Cancelled runId := by
  cases h with
  | @atOnce run s hcancel hstatus =>
      have heffects := @cancel_effects svc runId l.service
      rw [hcancel] at heffects
      exact ⟨heffects, rfl, cancel_cancels hstatus hcancel⟩
  | @later i run s _ hawaited hstatus =>
      have heffects := @awaited_effects svc runId i l.service
      rw [hawaited] at heffects
      exact ⟨heffects, rfl, awaited_cancels hstatus hawaited⟩

theorem turns_keyed (h : ReflTransGen (svc.Turn x) l l') (hk : l.service.journal.StepsKeyed) :
    l'.service.journal.StepsKeyed := by
  induction h with
  | refl => exact hk
  | tail _ hturn ih => exact hturn.keyed ih

/-- Once `cancel` has returned with the run cancelled, while nobody executes the run, no execution of
it leases a step or starts a provider call or a tool call. -/
theorem nothing_begins_after_cancel {l₀ l₁ l₂ : EventLoop}
    (hreached : ∃ calls, l₀.service.journal = history svc.memory.sha calls)
    (hrun : ReflTransGen (svc.Turn x) l₀ l) (hcancel : svc.CancelReturns runId l l₁)
    (halone : ∀ a ∈ l.activities, a.runId ≠ runId) (hlater : ReflTransGen (svc.Turn x) l₁ l₂) :
    ¬ svc.Begins runId l₂ l' := by
  obtain ⟨calls, hcalls⟩ := hreached
  have hkeyed := turns_keyed hrun (hcalls ▸ (history_invariant _ calls).keyed)
  obtain ⟨heffects, hactivities, hcancelled⟩ := hcancel.effects
  have hsilent : Silent svc runId l₂ := by
    induction hlater with
    | refl =>
        refine ⟨⟨effects_keyed heffects hkeyed, hcancelled⟩, fun a ha hid => ?_⟩
        rw [hactivities] at ha
        exact absurd hid (halone a ha)
    | tail _ hturn ih => exact ih.turn hturn
  exact hsilent.not_begins

/-! A worker that its parent's task executes when it is cancelled. -/

section
variable {others : Answers} {parentId : String} {worker : WorkerSpec} {child : RunRecord}
  {t : AsyncTask} {s₀ s₁ s₂ s₃ s₄ s₅ : ServiceState} {p q q' : Agent Unit} {n₁ n₂ n₃ : ℕ}

def startsNext : Agent Unit → Bool
  | .call (.journal (.claimReadyStep ..)) _ => true
  | _ => false

def returnsCancelled : Except PyError (RunRecord ⊕ ℕ) → Bool
  | .ok (.inl run) => run.status = .cancelled
  | _ => false

theorem cancel_of_returnsCancelled (h : returnsCancelled (svc.cancel runId s).1 = true) :
    ∃ run, svc.cancel runId s = (.ok (.inl run), (svc.cancel runId s).2) ∧
      run.status = .cancelled := by
  rcases hresult : svc.cancel runId s with ⟨_ | run | task, s'⟩ <;> rw [hresult] at h
  · simp [returnsCancelled] at h
  · exact ⟨run, rfl, by simpa [returnsCancelled] using h⟩
  · simp [returnsCancelled] at h

/-- The parent's task is resumed and takes up the worker, which is cancelled and goes on. -/
theorem begins_of_stretches (ht : t = ⟨parentId, .running, false, false⟩)
    (hresume : (svc.serve (.resume parentId) s₀).2 = s₁) (hloop : s₁.loop = [.start parentId])
    (hparent : svc.advance others n₁ (svc.execute x parentId) (s₁.setTask 0 t) = (p, s₂))
    (hchild : child.parentRunId = some parentId)
    (hworker : svc.advance others n₂ (EnsembleResearchEngine.executeWorker x.toPhases worker child) s₂ =
      (q, s₃)) (hcancel : (svc.cancel child.id s₃).2 = s₄)
    (hcancelled : returnsCancelled (svc.cancel child.id s₃).1 = true)
    (hlater : svc.advance others n₃ q s₄ = (q', s₅)) (hstarts : startsNext q' = true) :
    ∃ l l₁ l₂ l', ReflTransGen (svc.Turn x) ⟨s₀, []⟩ l ∧ svc.CancelReturns child.id l l₁ ∧
      ReflTransGen (svc.Turn x) l₁ l₂ ∧ svc.Begins child.id l₂ l' := by
  subst ht
  have hturn : svc.Turn x ⟨s₀, []⟩ ⟨s₁, []⟩ := hresume ▸ .request (.resume parentId)
  have hfirst : svc.Turn x ⟨s₁, []⟩ ⟨s₁.setTask 0 ⟨parentId, .running, false, false⟩,
      [⟨0, parentId, svc.execute x parentId⟩]⟩ :=
    .first (t := .start parentId) (by rw [hloop]; rfl) rfl rfl
  have hprelude := @turns_advance svc x 0
    ⟨s₁.setTask 0 ⟨parentId, .running, false, false⟩, [⟨0, parentId, svc.execute x parentId⟩]⟩
    others _ _ 0 n₁ rfl
  have hkept : s₂.loop = [⟨parentId, .running, false, false⟩] := by
    have hsame := @advance_loop svc others n₁ (svc.execute x parentId)
      (s₁.setTask 0 ⟨parentId, .running, false, false⟩)
    rw [hparent, ServiceState.setTask_loop, hloop] at hsame
    exact hsame
  rw [hparent] at hprelude
  have htake := @Turn.worker svc x ⟨s₂, [⟨0, parentId, p⟩]⟩ 0 _ worker child
    (by rw [hkept]; rfl) rfl hchild
  have hstretch := @turns_advance svc x 0 ⟨s₂, [⟨0, parentId, p⟩] ++
      [⟨0, child.id, EnsembleResearchEngine.executeWorker x.toPhases worker child⟩]⟩ others
    child.id _ 1 n₂ rfl
  rw [hworker] at hstretch
  have hlast := @turns_advance svc x 0 ⟨s₄, [⟨0, parentId, p⟩] ++ [⟨0, child.id, q⟩]⟩ others
    child.id _ 1 n₃ rfl
  rw [hlater] at hlast
  obtain ⟨run, hreturned, hstatus⟩ := cancel_of_returnsCancelled hcancelled
  rw [hcancel] at hreturned
  obtain ⟨l', hbegins⟩ : ∃ l', svc.Begins child.id ⟨s₅, [⟨0, parentId, p⟩, ⟨0, child.id, q'⟩]⟩ l' := by
    cases q' with
    | done r => simp [startsNext] at hstarts
    | call e k =>
        refine ⟨_, 1, 0, _, e, k, (e.answer svc.memory.sha others ⟨s₅.journal, []⟩).1,
          (e.answer svc.memory.sha others ⟨s₅.journal, []⟩).2, rfl, Agent.exec_answer e _, rfl, ?_⟩
        cases e with
        | journal c => cases c <;> trivial
        | _ => simp [startsNext] at hstarts
  exact ⟨_, _, _, l', .trans (.tail (.trans (.tail (.single hturn) hfirst) hprelude) htake) hstretch,
    .atOnce hreturned hstatus, hlast, hbegins⟩

end

namespace Detached

def parentId : String := "run_77777777777777777777777777777777"

def childId : String := "run_88888888888888888888888888888888"

def clock (t : Timestamp) : Ambient := ⟨t, t, t, "77777777777777777777777777777777"⟩

def sha : Sha256 := .ofTable [
  ("\x7b\"arguments\":\x7b\x7d,\"call_index\":0,\"iteration\":0,\"tool_call\":\x7b\"" ++
      "arguments\":\x7b\x7d,\"id\":\"call-1\",\"name\":\"send\"\x7d\x7d",
    "99c579c3e70c8527871f9a28d72c0beb7a967fec3c8c388ce390345f81fb51df"),
  ("\x7b\"input_hash\":\"99c579c3e70c8527871f9a28d72c0beb7a967fec3c8c388ce390345f81f" ++
      "b51df\",\"kind\":\"tool\",\"name\":\"send\",\"safety\":\"reconcilable\",\"sequen" ++
      "ce\":1\x7d",
    "2ccacacea359fa5737c7137b463a6e8077937b88651590e2d8eb5ca3d88dde12"),
  ("\x7b\"key\":\"2ccacacea359fa5737c7137b463a6e8077937b88651590e2d8eb5ca3d88dde12\"" ++
      ",\"run_id\":\"run_88888888888888888888888888888888\"\x7d",
    "c68e2faef750ba9886f1642c0ea69bc9c1ca22c4b712cdefdb7e5fa8641c78bf"),
  ("\x7b\"arguments\":\x7b\x7d,\"original_step_id\":\"step_c68e2faef750ba9886f1642c0" ++
      "ea69bc9c1ca22c4b712cdefdb7e5fa8641c78bf\",\"tool_call\":\x7b\"arguments\":\x7b" ++
      "\x7d,\"id\":\"call-1\",\"name\":\"send\"\x7d\x7d",
    "ac9072ef68a80977ec2bd9ca7b17defa0ecbbba28a8ddecfa1f565b9c98f8774"),
  ("\x7b\"input_hash\":\"ac9072ef68a80977ec2bd9ca7b17defa0ecbbba28a8ddecfa1f565b9c98" ++
      "f8774\",\"kind\":\"reconcile\",\"name\":\"send\",\"safety\":\"read_only\",\"sequ" ++
      "ence\":501\x7d",
    "97f14cf1bc96078c4f9a2ada9608701ea5e20f529ef65c89c3fb03a1983ab842"),
  ("\x7b\"key\":\"97f14cf1bc96078c4f9a2ada9608701ea5e20f529ef65c89c3fb03a1983ab842\"" ++
      ",\"run_id\":\"run_88888888888888888888888888888888\"\x7d",
    "7f8e0a4679547a0cb9404f58de2f3cf69a202af825ee9b0f097b912d8a7881c3"),
  ("\x7b\"arguments\":\x7b\x7d,\"call_index\":0,\"iteration\":0,\"recovery_of\":\"st" ++
      "ep_c68e2faef750ba9886f1642c0ea69bc9c1ca22c4b712cdefdb7e5fa8641c78bf\",\"tool_cal" ++
      "l\":\x7b\"arguments\":\x7b\x7d,\"id\":\"call-1\",\"name\":\"send\"\x7d\x7d",
    "344da69b7ded3ca241da3d53381752db30b9c5f4dca2f6b4ccdc606483337b79"),
  ("\x7b\"input_hash\":\"344da69b7ded3ca241da3d53381752db30b9c5f4dca2f6b4ccdc6064833" ++
      "37b79\",\"kind\":\"tool\",\"name\":\"send\",\"safety\":\"reconcilable\",\"sequen" ++
      "ce\":601\x7d",
    "51140a53b5a89b08083c20bb1820b41250727ad0237e81c38cdeda02a939e933"),
  ("\x7b\"key\":\"51140a53b5a89b08083c20bb1820b41250727ad0237e81c38cdeda02a939e933\"" ++
      ",\"run_id\":\"run_88888888888888888888888888888888\"\x7d",
    "071c5c3dbb6da7e724e5768d86bc2344cc89fbe086030fa3ce0e17fe64a63888")]

def intOnly : PyVal → Except PyError ℤ
  | .int n => .ok n
  | _ => .error (typeError "int")

def send : ToolEntry :=
  { Retried.send with
    safetyClass := .reconcilable }

def runtime : AgentRuntime :=
  { Retried.runtime with
    py := ⟨fun _ => "", fun _ => "", intOnly, fun _ _ => false⟩
    tools := ⟨[("send", send)], []⟩ }

/-- A worker of a fan-out run whose effect may be reconciled; its lease has run out. -/
def calls : List HonestCall := [
  ⟨⟨.createRun "fan-out" (dict [("question", .str "why")])
    (dict [("verifier", .str "local"), ("synthesizer", .str "local")]) ⟨none, none, none, none⟩ none
    none, clock 1⟩, trivial⟩,
  ⟨⟨.createRun "single" (dict [("prompt", .str "go")])
    (dict [("provider", .str "local"), ("model", .str "model"), ("system_prompt", .str "")])
    ⟨none, none, none, none⟩ (some parentId) none,
    ⟨2, 2, 2, "88888888888888888888888888888888"⟩⟩, trivial⟩,
  ⟨⟨.markRunStatus childId .running, clock 3⟩, trivial⟩,
  ⟨⟨.createStep childId "tool" "send" (toolInput 0 0 Retried.sendCall) "reconcilable" (some 1), clock 4⟩,
    trivial⟩,
  ⟨⟨.claimReadyStep "worker" 60 (some childId), clock 5⟩, trivial⟩]

def service : AgentService where
  py := runtime.py
  memory := ⟨sha, ⟨⟨fun _ _ => false, fun _ _ text => text⟩, []⟩⟩
  providers := [("local", Retried.model)]
  tools := runtime.tools
  config := ⟨["local"], ⟨false, .defaultProfile, 4000⟩⟩

def execution : Execution where
  turns := 1
  workerRuntime _ _ := .ok runtime
  workerArtifact _ := false
  accept _ _ _ := return ()
  research run := do
    let _ ← Agent.getRun run.id
    return ()
  recordedConfig _ := .ok runtime.config

def others : Answers :=
  ⟨clock, fun _ _ => .ok .null, fun _ _ => .ok .null, fun _ => .error (typeError "complete"), []⟩

def start : ServiceState where
  journal := history sha calls
  memory := ⟨[], 0, []⟩
  loop := []
  tasks := []
  taskFailures := []
  closed := false
  clock n := clock (60000005 + n)
  ticks := 0

def resumed : ServiceState := (service.serve (.resume parentId) start).2

def running : AsyncTask := ⟨parentId, .running, false, false⟩

/-- The parent's task before its group. -/
def grouped : Agent Unit × ServiceState :=
  service.advance others 5 (service.execute execution parentId) (resumed.setTask 0 running)

def work (child : RunRecord) : Agent Unit :=
  EnsembleResearchEngine.executeWorker execution.toPhases Unprovided.reader child

/-- The worker asks its tool whether the effect was applied. -/
def asking (child : RunRecord) : Agent Unit × ServiceState :=
  service.advance others 12 (work child) grouped.2

def cancelled (child : RunRecord) : Except PyError (RunRecord ⊕ ℕ) × ServiceState :=
  service.cancel child.id (asking child).2

def goesOn (child : RunRecord) : Agent Unit × ServiceState :=
  service.advance others 7 (asking child).1 (cancelled child).2

theorem grouped_eq : service.advance others 5 (service.execute execution parentId)
    (resumed.setTask 0 running) = (grouped.1, grouped.2) := by
  unfold grouped
  exact (Prod.eta _).symm

theorem asking_eq (child : RunRecord) :
    service.advance others 12 (work child) grouped.2 = ((asking child).1, (asking child).2) := by
  unfold asking
  exact (Prod.eta _).symm

theorem cancelled_eq (child : RunRecord) : service.cancel child.id (asking child).2 =
    cancelled child := by
  unfold cancelled
  rfl

theorem reached : ∃ calls, start.journal = history service.memory.sha calls := ⟨calls, rfl⟩

theorem goesOn_eq (child : RunRecord) : service.advance others 7 (asking child).1 (cancelled child).2 =
    ((goesOn child).1, (goesOn child).2) := by
  unfold goesOn
  exact (Prod.eta _).symm

def isWorker (child : RunRecord) : Bool :=
  child.parentRunId = some parentId && returnsCancelled (cancelled child).1 &&
    startsNext (goesOn child).1

theorem checked : resumed.loop = [.start parentId] ∧
    ((history sha calls).findRun childId).any isWorker = true := by
  decide +kernel

end Detached

theorem cancelled_idle : returnsCancelled
    (Retried.service.cancel Overtaken.runId Overtaken.start).1 = true := by
  decide +kernel

theorem nothing_begins_after_cancel_idle : ∃ l₁,
    Retried.service.CancelReturns Overtaken.runId ⟨Overtaken.start, []⟩ l₁ ∧
      ∀ l', ¬ Retried.service.Begins Overtaken.runId l₁ l' := by
  obtain ⟨run, hcancel, hstatus⟩ := cancel_of_returnsCancelled cancelled_idle
  exact ⟨_, .atOnce hcancel hstatus, fun l' => nothing_begins_after_cancel (x := Overtaken.execution)
    ⟨Overtaken.calls, rfl⟩ .refl (.atOnce hcancel hstatus) (fun a ha => absurd ha List.not_mem_nil)
    .refl⟩

theorem not_every_cancel_stops_its_run : ¬ ∀ (svc : AgentService) (x : Execution) (runId : String)
    (l₀ l l₁ l₂ l' : EventLoop), (∃ calls, l₀.service.journal = history svc.memory.sha calls) →
    ReflTransGen (svc.Turn x) l₀ l → svc.CancelReturns runId l l₁ →
    ReflTransGen (svc.Turn x) l₁ l₂ → ¬ svc.Begins runId l₂ l' := by
  intro h
  obtain ⟨hloop, hchecked⟩ := Detached.checked
  obtain ⟨child, -, hworker⟩ := (Option.any_eq_true _ _).1 hchecked
  simp only [Detached.isWorker, Bool.and_eq_true, decide_eq_true_eq] at hworker
  obtain ⟨⟨hparent, hcancelled⟩, hstarts⟩ := hworker
  have hcancel := Detached.cancelled_eq child
  obtain ⟨l, l₁, l₂, l', hturns, hreturns, hlater, hbegins⟩ := @begins_of_stretches Detached.service
    Detached.execution Detached.others _ Unprovided.reader _ Detached.running Detached.start
    Detached.resumed Detached.grouped.2 ((Detached.asking child).2) ((Detached.cancelled child).2)
    ((Detached.goesOn child).2) Detached.grouped.1 ((Detached.asking child).1)
    ((Detached.goesOn child).1) 5 12 7 rfl rfl hloop Detached.grouped_eq hparent
    (Detached.asking_eq child) (by rw [hcancel]) (by rw [hcancel]; exact hcancelled)
    (Detached.goesOn_eq child) hstarts
  exact h _ _ child.id ⟨Detached.start, []⟩ l l₁ l₂ l' Detached.reached hturns hreturns hlater hbegins

end AgentService

end Polaris
