import Polaris.Library.PyJsonPlain
import Polaris.Runtime.Harmless
import Polaris.Service.Eligibility

namespace Polaris
open PyJson PyVal SortedDict Journal Agent Program

/-! What the runtime finds in the journal. -/

theorem mem_listSteps {sha : Sha256} {a : Ambient} {j j' : Journal} {runId : String}
    {steps : List StepRecord}
    (h : (JournalCall.listSteps runId none).perform sha a j = (.ok steps, j'))
    {r : StepRecord} (hr : r ∈ steps) : j' = j ∧ r ∈ j.steps ∧ r.runId = runId := by
  simp only [JournalCall.perform, Journal.listSteps, Txn.ite_ok, Txn.bind_ok, requireRun_ok,
    Txn.read_ok, reduceCtorEq, false_and, not_false_eq_true, true_and, false_or] at h
  obtain ⟨run, _, ⟨-, rfl⟩, rfl, rfl⟩ := h
  exact ⟨rfl, by simpa [orderedSteps] using hr⟩

theorem JsonColumn.nodup {column : JsonColumn} {kind : MapKind} {es : List (String × PyVal)}
    (h : column.value = .map kind es) : (es.map Prod.fst).Nodup := by
  have hdecodes := column.decodes
  rw [h, decodeJson] at hdecodes
  split at hdecodes
  · rename_i v hv
    have hplain := loads_plain hv
    have hfrozen := Except.ok.inj hdecodes
    cases v with
    | map kind' fs =>
        cases kind' with
        | dict =>
            simp only [deepFreeze, PyVal.map.injEq] at hfrozen
            rw [← hfrozen.2, map_fst_freezeEntries]
            simp only [isPlain, Bool.and_eq_true, decide_eq_true_eq] at hplain
            exact hplain.1
        | proxy => simp [isPlain] at hplain
    | seq kind' xs => cases kind' <;> simp [deepFreeze] at hfrozen
    | _ => simp [deepFreeze] at hfrozen
  · simp at hdecodes

theorem recovers_of_input {p r : StepRecord} {input : PyVal} (h : recoveryInput p = .ok input)
    (hr : r.input.value = stored input) : p.Recovers r := by
  rw [recoveryInput] at h
  split at h
  · rename_i kind es hp
    obtain rfl := Except.ok.inj h
    have hnodup := setKey_nodup "recovery_of" (.str p.id) (JsonColumn.nodup hp)
    rw [StepRecord.Recovers, inputAt_stored hr, lastOf_of_nodup _ hnodup, lookup_setKey]
    simp
  · simp at h

theorem firstM_some {α : Type} {p : α → Except PyError Bool} {xs : List α} {x : α}
    (h : firstM p xs = .ok (some x)) : x ∈ xs ∧ p x = .ok true := by
  induction xs with
  | nil => simp [firstM] at h
  | cons y ys ih =>
      simp only [firstM, bind_eq_ok] at h
      obtain ⟨b, hb, h⟩ := h
      cases b with
      | true =>
          simp only [if_true, pure_eq_ok, Option.some.injEq] at h
          exact ⟨by simp [h], h ▸ hb⟩
      | false =>
          obtain ⟨hmem, hx⟩ := ih h
          exact ⟨List.mem_cons_of_mem _ hmem, hx⟩

theorem isReplacementOf_true {p r : StepRecord} (h : isReplacementOf p.id r = .ok true) :
    r.kind = "tool" ∧ p.Recovers r := by
  unfold isReplacementOf at h
  split at h
  · rename_i hkind
    refine ⟨hkind, ?_⟩
    simp only [StepRecord.inputGet, bind_eq_ok, pure_eq_ok, decide_eq_true_eq] at h
    obtain ⟨v, ⟨es, hes, rfl⟩, heq⟩ := h
    rw [StepRecord.Recovers, StepRecord.inputAt]
    cases hvalue : r.input.value with
    | map kind fs =>
        rw [hvalue, withGet] at hes
        obtain rfl := Except.ok.inj hes
        simpa [getIfMapping] using heq
    | _ => simp [hvalue, withGet] at hes
  · simp at h

/-! The parts of an execution that come to a tool. -/

namespace Agent
variable {α β : Type} {sha : Sha256} {rt : AgentRuntime} {runId : String} {w : World}
  {step : StepRecord}

theorem ofExcept_gated {x : Except PyError β} {f : β → Agent α}
    {Q : Except PyError α → World → Prop} (hf : ∀ b, x = .ok b → Gated sha rt runId (f b) Q w)
    (he : ∀ e, Q (.error e) w) : Gated sha rt runId (Program.ofExcept x >>= f) Q w := by
  cases x with
  | ok b => exact hf b rfl
  | error e => exact he e

/-- An answer of the journal. -/
theorem journal_gated {c : JournalCall β} {Q : Except PyError β → World → Prop} (hc : c.Honest)
    (h : ∀ (w₁ w₂ : World) (a : Ambient) (r : Except PyError β),
      w₁.Sound sha → w₂.Sound sha → c.perform sha a w₁.journal = (r, w₂.journal) →
      w₁.executions = w₂.executions → Q r w₂) : Gated sha rt runId (journal c) Q w :=
  Program.Safe.perform fun w₁ henv hw₁ => ⟨hc, fun r w₂ hexec hw₂ => by
    obtain ⟨a, hperform, hsame⟩ := hexec
    exact h w₁ w₂ a r hw₁ hw₂ hperform hsame.symm⟩

theorem markExecuting_gated {stepId : String} :
    Gated sha rt runId (markExecuting rt stepId) (fun r w' => ∀ row, r = .ok row →
      w'.executions.count stepId < w'.journal.eventCount .execute stepId) w := by
  refine journal_gated trivial fun w₁ w₂ a r hw₁ hw₂ hperform hsame row hr => ?_
  subst hr
  obtain ⟨leased, column, hfound, -, -, rfl, hjournal⟩ :=
    markExecuting_ok hw₁.invariant.keyed hperform
  have hcount : w₂.journal.eventCount .execute stepId =
      w₁.journal.eventCount .execute stepId + 1 := by
    rw [hjournal]
    have hid : leased.id = stepId := Table.find_key hfound
    rw [eventCount_append_one (j := w₁.journal) (l := .execute) rfl rfl (congrArg some hid)]
    simp
  have hmarked := hw₁.marked stepId
  rw [hsame] at hmarked
  omega

theorem executeTool_gated {stepId : String} {call : ToolCall} (hw : w.Sound sha)
    (hmay : MayExecute rt runId stepId call.name w.journal)
    (hmark : w.executions.count stepId < w.journal.eventCount .execute stepId) :
    Gated sha rt runId (executeTool rt stepId call) (fun _ _ => True) w := by
  have hexecute : Gated sha rt runId (Program.perform (.execute stepId call.name call.arguments) :
      Agent PyVal) (fun _ _ => True) w :=
    Program.Safe.perform fun w₁ henv hw₁ => by
      obtain ⟨-, hlater, hsame⟩ := hw.envs henv
      refine ⟨⟨hmay.later hlater, ?_⟩, fun _ _ _ _ => trivial⟩
      rw [hsame]
      exact hmark.trans_le (hlater.events .execute stepId)
  have hrefresh : ∀ value : PyVal, Harmless (do
      let _ ← refreshLease rt stepId
      return value : Agent PyVal) := fun value =>
    Harmless.call (by trivial) fun _ => only_pure _
  have hfailure : ∀ asked : Option PyError → Agent PyVal, (∀ failure, Harmless (asked failure)) →
      Harmless (Program.perform (.leaseFailure stepId) >>= asked) := fun asked h => by
    have hask : Harmless (Program.perform (.leaseFailure stepId) : Agent (Option PyError)) :=
      only_perform trivial
    exact hask.bind h
  have hbody := Program.Safe.bind hexecute hw (fun value w' hw' _ => (hrefresh value).ends)
    fun _ _ _ _ => trivial
  refine (hbody.andThen hw fun r w' hw' _ => (hfailure _ fun failure => ?_).ends).andThen hw
    fun _ _ _ _ => trivial
  cases failure with
  | none => exact only_ofExcept _
  | some exc => exact only_throw _

theorem createTool_gated {name : String} {input : PyVal} {safety : SafetyClass} {sequence : ℤ}
    (hsha : sha.CollisionFree) :
    Gated sha rt runId (createStep runId "tool" name input safety sequence)
      (fun r w' => ∀ row, r = .ok row → row ∈ w'.journal.steps ∧ row.runId = runId ∧
        row.kind = "tool" ∧ row.input.value = stored input) w := by
  refine journal_gated trivial fun w₁ w₂ a r hw₁ hw₂ hperform hsame row hr => ?_
  subst hr
  obtain ⟨hid, hmem, -⟩ := createStep_created hperform
  obtain ⟨hrun, hkind, -, hinput, -⟩ := origin_of_createdId hsha (hw₂.addressed row hmem) hid
  exact ⟨hmem, hrun, hkind, hinput⟩

theorem listApprovals_gated {stepId : String} :
    Gated sha rt runId (listApprovals runId (some stepId)) (fun r w' => ∀ approvals,
      r = .ok approvals → ∀ a ∈ approvals, a ∈ w'.journal.approvals ∧ a.runId = runId ∧
        a.stepId = some stepId) w :=
  journal_gated trivial fun w₁ w₂ a r _ _ hperform _ approvals hr => by
    subst hr
    have hread : Journal.listApprovals (some runId) (some stepId) none w₁.journal =
        (.ok approvals, w₂.journal) := hperform
    obtain ⟨rfl, hsame⟩ := Txn.read_ok.1 hread
    intro approval happroval
    rw [← hsame]
    simpa [and_assoc] using happroval

theorem approvalOutcome_gated {entry : ToolEntry} (hw : w.Sound sha) :
    Gated sha rt runId (approvalOutcome rt runId step entry) (fun r w' => r = .ok .approved →
      Exempt rt runId w'.journal entry ∨ Approved runId step.id w'.journal) w := by
  have hrun : Gated sha rt runId (getRun runId) (fun r w' => ∀ run, r = .ok run →
      w'.journal.findRun runId = some run) w :=
    journal_gated trivial fun w₁ w₂ a r _ _ hperform _ run hr => by
      subst hr
      obtain ⟨hfound, hsame⟩ := requireRun_ok.1 hperform
      exact hsame ▸ hfound
  refine Program.Safe.bind hrun hw (fun run w₁ hw₁ hfound => ?_) (by simp)
  refine ofExcept_gated (fun preapproved hin => ?_) (by simp)
  split
  · rename_i hexempt
    intro _
    simp only [Bool.or_eq_true, Bool.not_eq_true'] at hexempt
    rcases hexempt with rfl | hpolicy
    · exact .inl (.inl ⟨run, hfound run rfl, hin⟩)
    · exact .inl (.inr hpolicy)
  · refine Program.Safe.bind listApprovals_gated hw₁ (fun approvals w₃ hw₃ hrows => ?_) (by simp)
    split
    · refine Program.Safe.bind (Q := fun _ _ => True) (journal_gated trivial
        fun _ _ _ _ _ _ _ _ => trivial) hw₃ (fun _ w₄ _ _ => ?_) (by simp)
      intro h
      simp at h
    · rename_i approval hlast
      intro hstatus
      obtain ⟨hmem, hrun, hstep⟩ := hrows approvals rfl approval (List.mem_of_getLast? hlast)
      exact .inr ⟨approval, hmem, hrun, hstep, Except.ok.inj hstatus⟩

/-- From the claim of a step on that may be executed. -/
theorem marked_gated {stepId : String} {call : ToolCall} {f : Except PyError PyVal → Agent α}
    (hw : w.Sound sha) (hmay : MayExecute rt runId stepId call.name w.journal)
    (hf : ∀ r w', w'.Sound sha → Gated sha rt runId (f r) (fun _ _ => True) w') :
    Gated sha rt runId (do
      let _ ← markExecuting rt stepId
      let r ← executeTool rt stepId call
      f r) (fun _ _ => True) w := by
  refine Program.Safe.bind (later_gated markExecuting_gated hw) hw (fun row w₁ hw₁ h => ?_)
    fun _ _ _ _ => trivial
  obtain ⟨hlater, hleft⟩ := h
  exact Program.Safe.bind (executeTool_gated hw₁ (hmay.later hlater) (hleft row rfl)) hw₁
    (fun r w₂ hw₂ _ => hf r w₂ hw₂) fun _ _ _ _ => trivial

theorem failed_harmless {stepId : String} {exc : PyError} {a : α} : Harmless (do
    let _ ← failStep rt stepId exc
    let _ ← stopFailed rt runId "tool.failed" exc.message (some stepId)
    return a) :=
  Harmless.call (by trivial) fun _ => (toolFailed_harmless _ _).bind fun _ => only_pure _

/-- An approved tool step may be executed. -/
theorem mayExecute_of_outcome {name : String} {entry : ToolEntry} {j j' : Journal}
    (hmem : step ∈ j.steps) (hrun : step.runId = runId) (hkind : step.kind = "tool")
    (hlater : j.Later j') (hentry : rt.tools.getEntry name = .ok entry)
    (h : Exempt rt runId j' entry ∨ Approved runId step.id j') :
    MayExecute rt runId step.id name j' := by
  obtain ⟨s, hs, hfollows⟩ := hlater.steps step hmem
  refine ⟨s, hs, hfollows.id, hfollows.runId.trans hrun, hfollows.kind.trans hkind, ?_⟩
  rcases h with hexempt | happroved
  · exact .exempt hentry hexempt
  · exact .approved (hfollows.id ▸ happroved)

theorem executeToolGroup_gated (hsha : sha.CollisionFree) {iteration : ℤ} (calls : List ToolCall) :
    ∀ {w : World}, w.Sound sha → ∀ index, Gated sha rt runId
      (executeToolGroup rt runId iteration index calls) (fun _ _ => True) w := by
  induction calls with
  | nil => exact fun _ _ => trivial
  | cons call calls ih =>
      intro w hw index
      refine ofExcept_gated (fun entry hentry => ?_) fun _ => trivial
      refine Program.Safe.bind (createTool_gated hsha) hw (fun step w₁ hw₁ h => ?_)
        fun _ _ _ _ => trivial
      obtain ⟨hmem, hrun, hkind, -⟩ := h step rfl
      split
      · exact ih hw₁ _
      · refine Program.Safe.bind (later_gated (approvalOutcome_gated hw₁) hw₁) hw₁
          (fun outcome w₂ hw₂ h => ?_) fun _ _ _ _ => trivial
        obtain ⟨hlater, happroved⟩ := h
        cases outcome with
        | pending => exact Harmless.ends ((pause_harmless _ _).bind fun _ => only_pure _)
        | rejected =>
            exact Harmless.ends (Harmless.call (by trivial) fun _ => Harmless.call (by trivial)
              fun _ => only_pure _)
        | approved =>
            have hmay := mayExecute_of_outcome hmem hrun hkind hlater hentry (happroved rfl)
            refine claim_harmless.andThen hw₂ fun claimed w₃ hw₃ hlater₃ => ?_
            cases claimed with
            | none => trivial
            | some claimed =>
                refine marked_gated hw₃ (hmay.later hlater₃) fun r w₄ hw₄ => ?_
                cases r with
                | error exc => exact failed_harmless.ends
                | ok value =>
                    exact Harmless.andThen (only_perform trivial) hw₄ fun _ w₅ hw₅ _ => ih hw₅ _

theorem runReplacement_gated {reason : String} {replacement : StepRecord} {call : ToolCall}
    {receipt : PyVal → Option Journal.ReceiptInput} (hw : w.Sound sha)
    (hmay : MayExecute rt runId replacement.id call.name w.journal) :
    Gated sha rt runId (runReplacement rt runId reason replacement call receipt)
      (fun _ _ => True) w := by
  refine claim_harmless.andThen hw fun claimed w₁ hw₁ hlater => ?_
  cases claimed with
  | none => exact Harmless.ends ((pause_harmless _ _).bind fun _ => only_pure _)
  | some claimed =>
      refine marked_gated hw₁ (hmay.later hlater) fun r w₂ hw₂ => ?_
      cases r with
      | error exc => exact failed_harmless.ends
      | ok value =>
          exact Harmless.ends (Harmless.call (by trivial) fun _ => only_pure _)

/-- A step of the run whose outcome is in doubt. -/
structure InDoubt (runId : String) (p : StepRecord) (j : Journal) : Prop where
  mem : ∃ q ∈ j.steps, p.Follows q
  run : p.runId = runId
  doubt : p.status = .uncertain ∨ p.status = .cancelled

theorem InDoubt.later {j j' : Journal} {p : StepRecord} (h : InDoubt runId p j)
    (hlater : j.Later j') : InDoubt runId p j' := by
  obtain ⟨⟨q, hq, hpq⟩, hrun, hdoubt⟩ := h
  obtain ⟨s, hs, hqs⟩ := hlater.steps q hq
  exact ⟨⟨s, hs, hpq.trans hqs⟩, hrun, hdoubt⟩

theorem InDoubt.approvedRetry {j : Journal} {p r : StepRecord} (h : InDoubt runId p j)
    (hrecovers : p.Recovers r) (hdecided : Decided runId p j) : ApprovedRetry runId r j := by
  obtain ⟨⟨q, hq, hpq⟩, hrun, hdoubt⟩ := h
  refine ⟨q, hq, hpq.runId.trans hrun, hpq.doubted hdoubt, ?_, hdecided.later (.refl _) hpq.id⟩
  rw [StepRecord.Recovers, hpq.id]
  exact hrecovers

theorem createReplacement_gated (hsha : sha.CollisionFree) {original : StepRecord} {call : ToolCall}
    (hw : w.Sound sha) : Gated sha rt runId (createReplacement runId original call)
      (fun r w' => ∀ row, r = .ok row → row ∈ w'.journal.steps ∧ row.runId = runId ∧
        row.kind = "tool" ∧ original.Recovers row) w := by
  refine ofExcept_gated (fun input hinput => ?_) (by simp)
  refine Program.Safe.mono (createTool_gated hsha) hw fun r w₂ hw₂ h row hr => ?_
  obtain ⟨hmem, hrun, hkind, hvalue⟩ := h row hr
  exact ⟨hmem, hrun, hkind, recovers_of_input hinput hvalue⟩

theorem listSteps_gated : Gated sha rt runId (listSteps runId) (fun r w' => ∀ steps, r = .ok steps →
    ∀ step ∈ steps, step ∈ w'.journal.steps ∧ step.runId = runId) w :=
  journal_gated trivial fun w₁ w₂ a r _ _ hperform _ steps hr step hstep => by
    subst hr
    obtain ⟨hsame, hmem, hrun⟩ := mem_listSteps hperform hstep
    exact ⟨hsame ▸ hmem, hrun⟩

theorem retryApprovedUncertain_gated (hsha : sha.CollisionFree) {original : StepRecord}
    (hw : w.Sound sha) (hdoubt : InDoubt runId original w.journal)
    (hdecided : Decided runId original w.journal) :
    Gated sha rt runId (retryApprovedUncertain rt runId original) (fun _ _ => True) w := by
  have hrun : ∀ (w' : World) (row : StepRecord) (call : ToolCall), w'.Sound sha →
      w.journal.Later w'.journal → row ∈ w'.journal.steps → row.runId = runId → row.kind = "tool" →
      original.Recovers row → Gated sha rt runId (runReplacement rt runId
        "uncertain tool retry is already leased" row call fun _ => none) (fun _ _ => True) w' :=
    fun w' row call hw' hlater hmem hrun hkind hrecovers => runReplacement_gated hw'
      ⟨row, hmem, rfl, hrun, hkind, .retried
        ((hdoubt.later hlater).approvedRetry hrecovers (hdecided.later hlater rfl))⟩
  refine Program.Safe.bind (later_gated listSteps_gated hw) hw (fun steps w₁ hw₁ h => ?_)
    fun _ _ _ _ => trivial
  obtain ⟨hlater, hrows⟩ := h
  refine ofExcept_gated (fun existing hexisting => ?_) fun _ => trivial
  split
  · trivial
  · refine ofExcept_gated (fun call _ => ?_) fun _ => trivial
    cases existing with
    | some row =>
        obtain ⟨hmem, hreplaces⟩ := firstM_some hexisting
        obtain ⟨hkind, hrecovers⟩ := isReplacementOf_true hreplaces
        obtain ⟨hrow, hrowRun⟩ := hrows steps rfl row hmem
        exact hrun _ row call hw₁ hlater hrow hrowRun hkind hrecovers
    | none =>
        refine Program.Safe.bind (later_gated (createReplacement_gated hsha hw₁) hw₁) hw₁
          (fun row w₄ hw₄ h => ?_) fun _ _ _ _ => trivial
        obtain ⟨hlater', hcreated⟩ := h
        obtain ⟨hmem, hrowRun, hkind, hrecovers⟩ := hcreated row rfl
        exact hrun _ row call hw₄ (hlater.trans hlater') hmem hrowRun hkind hrecovers

theorem retryAfterReconciliation_gated (hsha : sha.CollisionFree) {original : StepRecord}
    {call : ToolCall} (hw : w.Sound sha) :
    Gated sha rt runId (retryAfterReconciliation rt runId original call) (fun _ _ => True) w := by
  refine Program.Safe.bind (createReplacement_gated hsha hw) hw (fun replacement w₁ hw₁ h => ?_)
    fun _ _ _ _ => trivial
  obtain ⟨hmem, hrun, hkind, -⟩ := h replacement rfl
  refine ofExcept_gated (fun entry hentry => ?_) fun _ => trivial
  refine Program.Safe.bind (later_gated (approvalOutcome_gated hw₁) hw₁) hw₁
    (fun outcome w₃ hw₃ h => ?_) fun _ _ _ _ => trivial
  obtain ⟨hlater, happroved⟩ := h
  cases outcome with
  | pending => exact Harmless.ends ((pause_harmless _ _).bind fun _ => only_pure _)
  | rejected =>
      exact Harmless.ends (Harmless.call (by trivial) fun _ => Harmless.call (by trivial)
        fun _ => only_pure _)
  | approved =>
      exact runReplacement_gated hw₃
        (mayExecute_of_outcome hmem hrun hkind hlater hentry (happroved rfl))

theorem reconcileUncertain_gated (hsha : sha.CollisionFree) {original : StepRecord}
    (hw : w.Sound sha) :
    Gated sha rt runId (reconcileUncertain rt runId original) (fun _ _ => True) w := by
  have hfind : Harmless (findReceipt (reconciledKey original.id)) := only_perform trivial
  refine hfind.andThen hw fun receipt w₁ hw₁ _ => ?_
  cases receipt with
  | some receipt => trivial
  | none =>
      refine ofExcept_gated (fun call _ => ?_) fun _ => trivial
      refine reconcileResult_harmless.andThen hw₁ fun value w₃ hw₃ _ => ?_
      cases value with
      | none => trivial
      | some value =>
          refine ofExcept_gated (fun applied _ => ?_) fun _ => trivial
          split
          · exact recordReconciled_harmless.ends
          · exact retryAfterReconciliation_gated hsha hw₃

theorem handleOpaque_gated (hsha : sha.CollisionFree) (hw : w.Sound sha)
    (hdoubt : InDoubt runId step w.journal) :
    Gated sha rt runId (handleOpaque rt runId step) (fun _ _ => True) w := by
  refine Program.Safe.bind (later_gated listApprovals_gated hw) hw (fun approvals w₁ hw₁ h => ?_)
    fun _ _ _ _ => trivial
  obtain ⟨hlater, hrows⟩ := h
  dsimp only
  split
  · rename_i hlast
    simp only [Option.any_eq_true, decide_eq_true_eq] at hlast
    obtain ⟨approval, hlast, hstatus⟩ := hlast
    obtain ⟨hlisted, hkind⟩ := List.mem_filter.1 (List.mem_of_getLast? hlast)
    obtain ⟨hmem, hrun, hstep⟩ := hrows approvals rfl approval hlisted
    exact retryApprovedUncertain_gated hsha hw₁ (hdoubt.later hlater)
      ⟨approval, hmem, hrun, hstep, by simpa using hkind, hstatus⟩
  · refine Harmless.ends ?_
    split
    · exact requestUncertaintyDecision_harmless.bind fun _ =>
        (pause_harmless _ _).bind fun _ => only_pure _
    · exact (pause_harmless _ _).bind fun _ => only_pure _

theorem handleUncertain_gated (hsha : sha.CollisionFree) (steps : List StepRecord) :
    ∀ {w : World}, w.Sound sha → (∀ step ∈ steps, InDoubt runId step w.journal) →
      Gated sha rt runId (handleUncertain rt runId steps) (fun _ _ => True) w := by
  induction steps with
  | nil => exact fun _ _ => trivial
  | cons step steps ih =>
      intro w hw hdoubt
      have hresolve : Gated sha rt runId
          (if step.safety = .reconcilable then reconcileUncertain rt runId step
            else handleOpaque rt runId step) (fun _ _ => True) w := by
        split
        · exact reconcileUncertain_gated hsha hw
        · exact handleOpaque_gated hsha hw (hdoubt step (by simp))
      have hrest : ∀ (resolved : Bool) (w' : World), w'.Sound sha → w.journal.Later w'.journal →
          Gated sha rt runId (if resolved then handleUncertain rt runId steps else return true)
            (fun _ _ => True) w' := by
        intro resolved w' hw' hlater
        split
        · exact ih hw' fun s hs => (hdoubt s (by simp [hs])).later hlater
        · trivial
      have hall := Program.Safe.bind (later_gated hresolve hw) hw
        (fun resolved w' hw' h => hrest resolved w' hw' h.1) fun _ _ _ _ => trivial
      unfold handleUncertain
      split <;> simp_all

theorem handleApprovalsAndUncertainty_gated (hsha : sha.CollisionFree) (hw : w.Sound sha) :
    Gated sha rt runId (handleApprovalsAndUncertainty rt runId) (fun _ _ => True) w := by
  refine Harmless.andThen (only_perform trivial) hw fun approvals w₁ hw₁ _ => ?_
  refine (handleApprovals_harmless approvals).andThen hw₁ fun stopped w₂ hw₂ _ => ?_
  split
  · trivial
  · refine Program.Safe.bind listSteps_gated hw₂ (fun steps w₃ hw₃ hrows => ?_)
      fun _ _ _ _ => trivial
    refine handleUncertain_gated hsha _ hw₃ fun step hstep => ?_
    obtain ⟨hlisted, huncertain⟩ := List.mem_filter.1 hstep
    obtain ⟨hmem, hrun⟩ := hrows steps rfl step hlisted
    exact ⟨⟨step, hmem, .refl step⟩, hrun, .inl (by simpa using huncertain)⟩

theorem reported_harmless : Harmless (do return some (← result rt runId)) :=
  (harmless_of_readOnly result_readOnly).bind fun _ => only_pure _

theorem stopped_harmless {eventType message : String} (h : ¬ IsMoveEvent eventType) :
    Harmless (do return some (← stopFailed rt runId eventType message none)) :=
  (stopFailed_harmless h _ _).bind fun _ => only_pure _

/-- One turn of the loop after the other. -/
theorem executeLoop_gated (hsha : sha.CollisionFree) (turns : ℕ) :
    ∀ {w : World}, w.Sound sha →
      Gated sha rt runId (executeLoop rt runId turns) (fun _ _ => True) w := by
  induction turns with
  | zero => exact fun _ => trivial
  | succ turns ih =>
      intro w hw
      refine (harmless_of_readOnly reconstruct_readOnly).andThen hw fun conversation w₁ hw₁ _ => ?_
      split
      · exact Harmless.ends (Harmless.call (by trivial) fun _ => reported_harmless)
      · split
        · exact (stopped_harmless (reports_no_move _ (by simp [reports]))).ends
        · refine (harmless_of_readOnly (outstandingToolCalls_readOnly _)).andThen hw₁
            fun calls w₂ hw₂ _ => ?_
          split
          · refine Program.Safe.bind (executeToolGroup_gated hsha calls hw₂ 0) hw₂
              (fun outcome w₃ hw₃ _ => ?_) fun _ _ _ _ => trivial
            split
            · exact reported_harmless.ends
            · refine (harmless_of_readOnly hasRepeatedToolCalls_readOnly).andThen hw₃
                fun repeated w₄ hw₄ _ => ?_
              split
              · exact (stopped_harmless (reports_no_move _ (by simp [reports]))).ends
              · exact ih hw₄
          · refine (executeModel_harmless _ _).andThen hw₂ fun completed w₃ hw₃ _ => ?_
            split
            · exact ih hw₃
            · refine Harmless.andThen (only_perform trivial) hw₃ fun run w₄ hw₄ _ => ?_
              split
              · exact reported_harmless.ends
              · exact ih hw₄

theorem execute_gated (hsha : sha.CollisionFree) {turns : ℕ} (hw : w.Sound sha) :
    Gated sha rt runId (execute rt runId turns) (fun _ _ => True) w := by
  refine Harmless.andThen (only_perform trivial) hw fun run w₁ hw₁ _ => ?_
  split
  · exact reported_harmless.ends
  · refine Harmless.andThen (only_perform trivial) hw₁ fun _ w₂ hw₂ _ => ?_
    refine Harmless.andThen (only_perform trivial) hw₂ fun _ w₃ hw₃ _ => ?_
    refine Program.Safe.bind (handleApprovalsAndUncertainty_gated hsha hw₃) hw₃
      (fun stopped w₄ hw₄ _ => ?_) fun _ _ _ _ => trivial
    split
    · exact reported_harmless.ends
    · refine Harmless.andThen (only_perform trivial) hw₄ fun run w₅ hw₅ _ => ?_
      split
      · exact Harmless.andThen (only_perform trivial) hw₅ fun _ w₆ hw₆ _ =>
          executeLoop_gated hsha turns hw₆
      · exact executeLoop_gated hsha turns hw₅

end Agent

/-! Executions one after the other, each of which may be cut off at any call. -/

/-- Nothing has been executed, after whatever was done with the journal so far. -/
def World.Begins (sha : Sha256) (w : World) : Prop :=
  (∃ calls : List HonestCall, w.journal = history sha calls) ∧ w.executions = []

abbrev Executing (sha : Sha256) (rt : AgentRuntime) (runId : String) :
    Option (Agent (Option AgentResult)) → World → Prop :=
  Program.Reach (agentSystem sha runId) (fun p => ∃ turns, p = execute rt runId turns)
    (fun w => w.Begins sha)

section
variable {sha : Sha256} {rt : AgentRuntime} {runId : String} {w : World}
  {c : Option (Agent (Option AgentResult))}

theorem Executing.safe (hsha : sha.CollisionFree) (h : Executing sha rt runId c w) :
    w.Sound sha ∧ ∀ p, c = some p → Gated sha rt runId p (fun _ _ => True) w := by
  refine Program.Reach.safe (R := gateRules sha rt runId) ?_ ?_ h
  · rintro w ⟨⟨calls, hcalls⟩, hnone⟩
    refine ⟨hcalls ▸ history_invariant sha calls, hcalls ▸ addressed_history sha calls, ?_⟩
    simp [World.Marked, hnone]
  · rintro p ⟨turns, rfl⟩ w hw
    exact execute_gated hsha hw

/-- A tool is executed at most once for each lease of its step. -/
theorem World.Sound.count_le (hw : w.Sound sha) {step : StepRecord} (h : step ∈ w.journal.steps) :
    w.executions.count step.id + (if step.status = .leased then 1 else 0) ≤ step.attemptCount := by
  have hrow := hw.invariant.rows step h
  have hmarks : w.journal.eventCounts step.id .execute +
      (if step.status = .leased then 1 else 0) ≤ step.attemptCount := by
    rw [hrow.attempts]
    exact hrow.executions
  have hcount : w.executions.count step.id ≤ w.journal.eventCounts step.id .execute :=
    hw.marked step.id
  omega

theorem World.Sound.executed (hw : w.Sound sha) {stepId : String} (h : stepId ∈ w.executions) :
    ∃ step ∈ w.journal.steps, step.id = stepId := by
  have hcount : 0 < w.executions.count stepId := List.count_pos_iff.2 h
  have hmarks : 0 < w.journal.eventCount .execute stepId := hcount.trans_le (hw.marked stepId)
  obtain ⟨e, he, hmark⟩ := List.countP_pos_iff.1 hmarks
  simp only [Bool.and_eq_true, decide_eq_true_eq] at hmark
  have hmove : IsMoveEvent e.type := by
    rw [hmark.1]
    decide
  obtain ⟨step, hstep, hid⟩ := hw.invariant.known e he hmove
  exact ⟨step, hstep, Option.some.inj (hid.symm.trans hmark.2)⟩

end

section
variable {sha : Sha256} {rt : AgentRuntime} {runId : String} {w : World}

theorem executions_within_attempts {c : Option (Agent (Option AgentResult))}
    (hsha : sha.CollisionFree) (h : Executing sha rt runId c w) :
    (∀ stepId ∈ w.executions, ∃ step ∈ w.journal.steps, step.id = stepId) ∧
      ∀ step ∈ w.journal.steps,
        w.executions.count step.id + (if step.status = .leased then 1 else 0) ≤ step.attemptCount ∧
        (step.safety = .reconcilable ∨ step.safety = .opaqueSideEffect →
          w.executions.count step.id ≤ 1 ∧ (step.status = .ready → step.id ∉ w.executions)) := by
  obtain ⟨hw, -⟩ := h.safe hsha
  refine ⟨fun _ => hw.executed, fun step hstep => ⟨hw.count_le hstep, fun hsafety => ?_⟩⟩
  have hcount := hw.count_le hstep
  have hrow := hw.invariant.rows step hstep
  obtain ⟨honce, hready⟩ := hrow.once hsafety
  rw [← hrow.attempts] at honce hready
  refine ⟨by omega, fun hstatus => ?_⟩
  rw [← List.count_eq_zero]
  have := hready hstatus
  omega

theorem execution_authorised {stepId name : String} {arguments : JsonObject}
    {k : Except PyError PyVal → Agent (Option AgentResult)} (hsha : sha.CollisionFree)
    (h : Executing sha rt runId (some (.call (.execute stepId name arguments) k)) w) :
    MayExecute rt runId stepId name w.journal := by
  obtain ⟨hw, hsafe⟩ := h.safe hsha
  exact (hsafe _ rfl w .refl hw).1.1

end

/-! A retry that somebody approved. -/

namespace Agent
variable {α : Type} {sha : Sha256}

/-- The program and the world after its next calls of the journal, all made at one time. -/
def drive (sha : Sha256) (a : Ambient) : ℕ → Agent α → World → Agent α × World
  | n + 1, .call (.journal op) k, w =>
      let done := op.perform sha a w.journal
      drive sha a n (k done.1) (w.withJournal done.2)
  | _, p, w => (p, w)

/-- The step and the tool of the execution that the program comes to. -/
def executing : Agent α → Option (String × String)
  | .call (.execute stepId name _) _ => some (stepId, name)
  | _ => none

theorem drive_reaches {starts : Agent α → Prop} {init : World → Prop} {runId : String} {a : Ambient}
    (n : ℕ) : ∀ {p : Agent α} {w : World},
      Program.Reach (agentSystem sha runId) starts init (some p) w →
      Program.Reach (agentSystem sha runId) starts init (some (drive sha a n p w).1)
        (drive sha a n p w).2 := by
  induction n with
  | zero => exact fun h => h
  | succ n ih =>
      intro p w h
      cases p with
      | done r => exact h
      | call e k =>
          cases e with
          | journal op => exact ih (h.call ⟨a, rfl, rfl⟩)
          | _ => exact h

theorem drive_executions {a : Ambient} (n : ℕ) : ∀ {p : Agent α} {w : World},
    (drive sha a n p w).2.executions = w.executions := by
  induction n with
  | zero => exact rfl
  | succ n ih =>
      intro p w
      cases p with
      | done r => rfl
      | call e k =>
          cases e with
          | journal op => exact ih
          | _ => rfl

end Agent

namespace AgentService.Retried

theorem collisionFree : sha.CollisionFree :=
  Sha256.ofTable_collisionFree (by decide +kernel) (by decide +kernel)

/-- The outcome is in doubt, and the retry is approved. -/
def approved : World :=
  ⟨history sha (⟨⟨.createRun "single" (dict []) (dict []) ⟨none, none, none, none⟩ none none,
    clock 1⟩, trivial⟩ :: (calls.drop 2).take 6), []⟩

def retrying : Agent (Option AgentResult) × World :=
  drive sha (clock 60000007) 12 (execute runtime runId 1) approved

theorem retrying_executes : executing retrying.1 = some (replacement, "send") := by decide +kernel

theorem executing_retrying : Executing sha runtime runId (some retrying.1) retrying.2 :=
  drive_reaches 12 (.start (.init ⟨⟨_, rfl⟩, rfl⟩) ⟨1, rfl⟩)

/-- The call that the retry comes to. -/
theorem executing_call : ∃ arguments k w, w.executions = [] ∧
    Executing sha runtime runId (some (.call (.execute replacement "send" arguments) k)) w := by
  have hreach := executing_retrying
  have hexecutes := retrying_executes
  have hnone : retrying.2.executions = [] := drive_executions 12
  generalize retrying = reached at hreach hexecutes hnone
  obtain ⟨p, w⟩ := reached
  cases p with
  | done r => simp [executing] at hexecutes
  | call e k =>
      cases e with
      | execute stepId name arguments =>
          simp only [executing, Option.some.injEq, Prod.mk.injEq] at hexecutes
          obtain ⟨rfl, rfl⟩ := hexecutes
          exact ⟨arguments, k, w, hnone, hreach⟩
      | _ => simp [executing] at hexecutes

end AgentService.Retried

theorem execution_authorised_retried : ∃ w : World,
    MayExecute AgentService.Retried.runtime AgentService.Retried.runId
      AgentService.Retried.replacement "send" w.journal := by
  obtain ⟨arguments, k, w, -, hreach⟩ := AgentService.Retried.executing_call
  exact ⟨w, execution_authorised AgentService.Retried.collisionFree hreach⟩

theorem executions_within_attempts_retried : ∃ w : World,
    w.executions = [AgentService.Retried.replacement] ∧
      ∃ step ∈ w.journal.steps, step.id = AgentService.Retried.replacement ∧
        1 ≤ step.attemptCount := by
  obtain ⟨arguments, k, w, hnone, hreach⟩ := AgentService.Retried.executing_call
  let w' : World := { w with executions := [AgentService.Retried.replacement] }
  have hnext : Executing AgentService.Retried.sha AgentService.Retried.runtime
      AgentService.Retried.runId (some (k (.ok .null))) w' :=
    hreach.call ⟨rfl, by simp [w', hnone]⟩
  obtain ⟨hsteps, hcounts⟩ :=
    executions_within_attempts AgentService.Retried.collisionFree hnext
  obtain ⟨step, hstep, hid⟩ := hsteps AgentService.Retried.replacement (by simp [w'])
  have hcount : w'.executions.count step.id = 1 := by simp [w', hid]
  have hbound := (hcounts step hstep).1
  exact ⟨w', rfl, step, hstep, hid, by omega⟩

end Polaris
