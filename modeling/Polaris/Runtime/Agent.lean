import Polaris.Runtime.Conversation

namespace Polaris
open PyJson SortedDict

/-- `str(exc)` and the exception's class name. -/
def PyError.value (exc : PyError) : PyVal :=
  dict [("type", .str exc.cls.name), ("message", .str exc.message)]

def ErrorClass.isProviderFailure : ErrorClass → Bool
  | .providerError _ => true
  | .timeoutError => true
  | _ => false

namespace Agent
variable (rt : AgentRuntime)

def stopFailed (runId eventType message : String) (stepId : Option String) : Agent AgentResult := do
  let _ ← appendEvent runId eventType (dict [("message", .str message)]) stepId
  let run ← getRun runId
  if run.status ∉ [RunStatus.failed, .cancelled] then
    let _ ← markRunStatus runId .failed
    result rt runId
  else result rt runId

def pause (runId reason : String) (stepId : Option String) : Agent Unit := do
  let _ ← appendEvent runId "runtime.paused" (dict [("reason", .str reason)]) stepId
  let run ← getRun runId
  if run.status ∈ [RunStatus.created, .running] then
    let _ ← markRunStatus runId .paused
    return ()
  else return ()

def claim (step : StepRecord) : Agent (Option StepRecord) := do
  let current ← getStep step.id
  if current.status ≠ .ready then return none
  else
    match ← journal (.claimReadyStep rt.config.workerId rt.config.leaseSeconds (some step.runId)) with
    | none => return none
    | some claimed =>
        if claimed.id ≠ step.id then
          .throw ⟨.runtimeError, "journal claimed step " ++ Journal.pyRepr claimed.id ++ " while " ++
            Journal.pyRepr step.id ++ " was expected"⟩
        else return some claimed

def refreshLease (stepId : String) : Agent StepRecord :=
  journal (.heartbeat stepId rt.config.workerId rt.config.leaseSeconds)

def markExecuting (stepId : String) : Agent StepRecord :=
  journal (.markExecuting stepId rt.config.workerId)

def failStep (stepId : String) (exc : PyError) : Agent StepRecord :=
  journal (.failStep stepId rt.config.workerId exc.value)

def commitStep (stepId : String) (output : PyVal) (receipt : Option Journal.ReceiptInput) :
    Agent StepRecord :=
  journal (.commitStep stepId rt.config.workerId output receipt)

/-- The pulse that runs next to the body; an error of its own replaces what the body gave. -/
def leaseHeartbeat {α : Type} (stepId : String) (body : Agent α) : Agent α :=
  body.andThen fun r => do
    match ← Program.perform (.leaseFailure stepId) with
    | some exc => .throw exc
    | none => .ofExcept r

def executeTool (stepId : String) (call : ToolCall) : Agent (Except PyError PyVal) :=
  Program.attempt <| leaseHeartbeat stepId do
    let value ← Program.perform (.execute stepId call.name call.arguments)
    let _ ← refreshLease rt stepId
    return value

def reconcileTool (stepId : String) (call : ToolCall) : Agent (Except PyError PyVal) :=
  Program.attempt <| leaseHeartbeat stepId do
    let value ← Program.perform (.reconcile call.name call.arguments)
    let _ ← refreshLease rt stepId
    return value

def requestedModel (runId : String) : Agent String := do
  let run ← getRun runId
  match getIfMapping "model" .null run.config.value with
  | .str model => return model
  | _ => return rt.providerModel

/-! The model step. -/

def isModelOf (iteration : ℤ) (step : StepRecord) : Except PyError Bool :=
  if step.kind = "model" then do
    return equalsInt rt.py iteration (← step.inputGet "iteration")
  else .ok false

def requestSnapshot (iteration : ℤ) (attempt : ℕ) (requestedModel : String)
    (messages : List Message) (definitions : List PyVal) : PyVal :=
  dict [("iteration", .int iteration), ("attempt", .int attempt),
    ("provider", .str rt.providerName), ("requested_model", .str requestedModel),
    ("messages", .seq .list (messages.map serializeMessage)),
    ("tools", .seq .list definitions)]

def modelStepName (iteration : ℤ) (attempt : ℕ) : String :=
  "completion-" ++ toString iteration ++ "-attempt-" ++ toString attempt

def isResumable (step : StepRecord) : Bool :=
  step.status = .ready || step.status = .leased || step.status = .executing

def abandonCalls (runId stepId : String) : List ProviderCallRecord → Agent Unit
  | [] => return ()
  | call :: calls => do
      let _ ← journal (.completeProviderCall call.id (dict [("warning",
        .str "worker lease expired before the response committed")]) .uncertain none 0 0 0)
      let _ ← appendEvent runId "provider.duplicate_billing_warning"
        (dict [("provider_call_id", .str call.id),
          ("warning", .str "retry may cause duplicate billing")]) (some stepId)
      abandonCalls runId stepId calls

def readMessage (py : PyBuiltins) (item : PyVal) : Except PyError Message := do
  deserializeMessage py (← withGet item)

/-- The elements of a sequence of messages that are mappings. -/
def snapshotMessages (py : PyBuiltins) : PyVal → Except PyError (List Message)
  | .seq _ items => (items.filter isMapping).mapM (readMessage py)
  | .str _ => .ok []
  | .map _ _ => .ok []
  | v => .error (typeError ("'" ++ typeName v ++ "' object is not iterable"))

/-- The messages and the tools of a snapshot. -/
def requestOf (py : PyBuiltins) (es : List (String × PyVal)) :
    Except PyError (List Message × PyVal) := do
  let messages ← snapshotMessages py ((lookup "messages" es).getD (.seq .tuple []))
  return (messages, (lookup "tools" es).getD (.seq .tuple []))

def recordCompletion (runId : String) (step : StepRecord) (reservationId callId : String)
    (completion : CompletionResult) : Agent Unit := do
  let microUsd ← if rt.estimatesCost then Program.perform (.estimateCost completion) else pure 0
  let _ ← refreshLease rt step.id
  let _ ← journal (.completeProviderCall callId (serializeCompletion completion) .completed
    (some completion.model) completion.usage.promptTokens completion.usage.completionTokens
    microUsd)
  let _ ← refreshLease rt step.id
  let _ ← journal (.settleBudget runId reservationId
    ⟨some 1, some completion.usage.totalTokens, some microUsd, none⟩ .none)
  let _ ← refreshLease rt step.id
  let _ ← commitStep rt step.id (serializeCompletion completion) none
  return ()

def requestModel (runId : String) (step : StepRecord) (snapshot : PyVal)
    (reservationId callId : String) : Agent Unit := do
  let es ← .ofExcept (withGet snapshot)
  let _ ← refreshLease rt step.id
  leaseHeartbeat step.id do
    let (messages, tools) ← .ofExcept (requestOf rt.py es)
    let completion ← Program.perform (.complete step.id messages tools)
    recordCompletion rt runId step reservationId callId completion

def closeFailedCall (requestedModel : String) (exc : PyError) : Option String → Agent Unit
  | none => return ()
  | some callId => do
      let _ ← journal (.completeProviderCall callId exc.value .failed (some requestedModel) 0 0 0)
      return ()

def settleFailedCall (runId : String) : Option String → Agent Unit
  | none => return ()
  | some reservationId => do
      let _ ← journal (.settleBudget runId reservationId ⟨some 1, none, none, none⟩ .none)
      return ()

def modelFailed (runId requestedModel : String) (step : StepRecord) (attempt : ℕ)
    (reservationId callId : Option String) (exc : PyError) : Agent Bool := do
  if exc.cls = .budgetExceededError then
    let _ ← failStep rt step.id exc
    let _ ← stopFailed rt runId "budget.exceeded" exc.message none
    return false
  else if exc.cls.isProviderFailure then
    closeFailedCall requestedModel exc callId
    settleFailedCall runId reservationId
    let _ ← failStep rt step.id exc
    let _ ← appendEvent runId "provider.retryable_failure"
      (dict [("error", exc.value), ("attempt", .int attempt),
        ("warning", .str "response was not committed; retry may cause duplicate billing")])
      (some step.id)
    return false
  else .throw exc

def chargedCall (runId requestedModel : String) (step : StepRecord) (snapshot : PyVal)
    (attempt : ℕ) : Agent Bool := do
  let amount : Resources :=
    ⟨rt.config.reservationCalls, rt.config.reservationTokens, rt.config.reservationMicroUsd, 0⟩
  match ← (journal (.reserveBudget runId amount (some ("budget_" ++ step.id)))).attempt with
  | .error exc => modelFailed rt runId requestedModel step attempt none none exc
  | .ok reservationId =>
      match ← (journal (.startProviderCall runId rt.providerName snapshot (some step.id)
          (some requestedModel))).attempt with
      | .error exc =>
          modelFailed rt runId requestedModel step attempt (some reservationId) none exc
      | .ok call =>
          match ← (requestModel rt runId step snapshot reservationId call.id).attempt with
          | .error exc =>
              modelFailed rt runId requestedModel step attempt (some reservationId) (some call.id)
                exc
          | .ok () => return true

/-- From the claim of a model step on, for a fresh and for a resumed one. -/
def runModelStep (runId requestedModel : String) (step : StepRecord) (snapshot : PyVal)
    (attempt : ℕ) : Agent Bool := do
  if step.status = .committed then return true
  else
    match ← claim rt step with
    | none => return false
    | some _ => do
        let _ ← markExecuting rt step.id
        let calls ← listProviderCalls runId
        abandonCalls runId step.id
          (calls.filter fun call => call.stepId = some step.id && call.status = .started)
        chargedCall rt runId requestedModel step snapshot attempt

def executeModel (runId : String) (messages : List Message) (iteration : ℤ) : Agent Bool := do
  let steps ← listSteps runId
  let prior ← .ofExcept (filterE (isModelOf rt iteration) steps)
  if prior.any fun step => step.status = .committed then return true
  else
    let failures := prior.countP fun step => step.status = .failed
    if rt.config.maxIterations ≤ failures then
      let _ ← stopFailed rt runId "provider.attempt_limit" "provider retry limit reached" none
      return false
    else
      let model ← requestedModel rt runId
      match prior.reverse.find? isResumable with
      | some step => runModelStep rt runId model step step.input.value (failures + 1)
      | none => do
          let definitions ← Program.perform .getDefinitions
          let snapshot := requestSnapshot rt iteration (failures + 1) model messages definitions
          let step ← createStep runId "model" (modelStepName iteration (failures + 1)) snapshot
            .readOnly (iteration * 1000)
          runModelStep rt runId model step snapshot (failures + 1)

/-! The approvals. -/

/-- `name in value` -/
def isIn (name : String) : PyVal → Except PyError Bool
  | .seq _ items => .ok (items.any (· = .str name))
  | .map _ es => .ok (lookup name es).isSome
  | .str s => .ok (s.toList.tails.any name.toList.isPrefixOf)
  | v => .error (typeError ("argument of type '" ++ typeName v ++ "' is not iterable"))

def durablePreapproved (run : RunRecord) : PyVal :=
  match run.config.value with
  | .map _ es => (lookup "preapproved_tool_names" es).getD (.seq .tuple [])
  | _ => .seq .tuple []

def approvalRequest (step : StepRecord) (entry : ToolEntry) : PyVal :=
  dict [("tool", .str entry.name), ("safety", .str entry.safetyClass.value),
    ("input", step.input.value)]

def approvalOutcome (runId : String) (step : StepRecord) (entry : ToolEntry) :
    Agent ApprovalStatus := do
  let run ← getRun runId
  let preapproved ← .ofExcept (isIn entry.name (durablePreapproved run))
  if preapproved || !rt.config.approvalPolicy.requiresApproval entry.name entry.safetyClass then
    return .approved
  else
    let approvals ← listApprovals runId (some step.id)
    match approvals.getLast? with
    | none => do
        let _ ← journal (.requestApproval runId (some step.id) (approvalRequest step entry)
          "tool_execution")
        return .pending
    | some approval => return approval.status

def requestUncertaintyDecision (runId : String) (step : StepRecord) : Agent Unit := do
  let approvals ← listApprovals runId (some step.id)
  if approvals.any fun approval => approval.kind = "uncertain_outcome" then return ()
  else
    let _ ← journal (.requestApproval runId (some step.id)
      (dict [("step", .str step.id), ("tool", .str step.name),
        ("reason", optStr step.uncertaintyReason)]) "uncertain_outcome")
    return ()

/-! The tool group. -/

inductive GroupOutcome where
  | continue
  | paused
  | cancelled
  | failed
deriving DecidableEq, Repr

def toolInput (iteration index : ℤ) (call : ToolCall) : PyVal :=
  dict [("iteration", .int iteration), ("call_index", .int index),
    ("tool_call", serializeToolCall call), ("arguments", call.arguments.toDict)]

def toolOutput (call : ToolCall) (value : PyVal) : PyVal :=
  dict [("tool_call_id", .str call.id), ("name", .str call.name), ("result", value)]

def toolReceiptKey (stepId : String) : String := "tool:" ++ stepId

def groupReceipt (entry : ToolEntry) (stepId : String) (output : PyVal) :
    Option Journal.ReceiptInput :=
  if entry.safetyClass = .reconcilable then some ⟨some (toolReceiptKey stepId), some output, none⟩
  else none

def executeToolGroup (runId : String) (iteration : ℤ) : ℤ → List ToolCall → Agent GroupOutcome
  | _, [] => return .continue
  | index, call :: calls => do
      let entry ← .ofExcept (rt.tools.getEntry call.name)
      let step ← createStep runId "tool" call.name (toolInput iteration index call)
        entry.safetyClass (iteration * 1000 + index + 1)
      if step.status = .committed then executeToolGroup runId iteration (index + 1) calls
      else
        match ← approvalOutcome rt runId step entry with
        | .pending => do
            pause runId "tool approval required" (some step.id)
            return .paused
        | .rejected => do
            let _ ← cancelStep step.id
            let _ ← markRunStatus runId .cancelled
            return .cancelled
        | .approved =>
            match ← claim rt step with
            | none => return .paused
            | some _ => do
                let _ ← markExecuting rt step.id
                match ← executeTool rt step.id call with
                | .error exc => do
                    let _ ← failStep rt step.id exc
                    let _ ← stopFailed rt runId "tool.failed" exc.message (some step.id)
                    return .failed
                | .ok value => do
                    let output := toolOutput call value
                    let _ ← commitStep rt step.id output (groupReceipt entry step.id output)
                    executeToolGroup runId iteration (index + 1) calls

/-! Steps in doubt. -/

def callFromStep (step : StepRecord) : Except PyError ToolCall := do
  let value ← subscript "tool_call" step.input.value
  if isMapping value then deserializeToolCall rt.py value
  else .error (typeError "tool step does not contain a serialized tool call")

/-- `{**original.input, "recovery_of": original.id}` -/
def recoveryInput (original : StepRecord) : Except PyError PyVal :=
  match original.input.value with
  | .map _ es => .ok (dict (setKey "recovery_of" (.str original.id) es))
  | v => .error (typeError ("'" ++ typeName v ++ "' object is not a mapping"))

def createReplacement (runId : String) (original : StepRecord) (call : ToolCall) :
    Agent StepRecord := do
  let input ← .ofExcept (recoveryInput original)
  createStep runId "tool" call.name input original.safety (original.sequence.getD 0 + 600)

/-- The end of both recoveries, from the claim of the replacement on. -/
def runReplacement (runId reason : String) (replacement : StepRecord) (call : ToolCall)
    (receipt : PyVal → Option Journal.ReceiptInput) : Agent Bool := do
  match ← claim rt replacement with
  | none => do
      pause runId reason (some replacement.id)
      return false
  | some _ => do
      let _ ← markExecuting rt replacement.id
      match ← executeTool rt replacement.id call with
      | .error exc => do
          let _ ← failStep rt replacement.id exc
          let _ ← stopFailed rt runId "tool.failed" exc.message (some replacement.id)
          return false
      | .ok value => do
          let _ ← commitStep rt replacement.id (toolOutput call value) (receipt value)
          return true

def retryApprovedUncertain (runId : String) (original : StepRecord) : Agent Bool := do
  let steps ← listSteps runId
  let existing ← .ofExcept (firstM (isReplacementOf original.id) steps)
  if existing.any fun step => step.status = .committed || step.status = .uncertain then return true
  else
    let call ← .ofExcept (callFromStep rt original)
    let replacement ← match existing with
      | some step => pure step
      | none => createReplacement runId original call
    runReplacement rt runId "uncertain tool retry is already leased" replacement call fun _ => none

/-- Whether the result says that the effect was applied. -/
def reconcileProvesApplied : PyVal → Except PyError Bool
  | .map _ es =>
      if truthy rt.py (getOrNone "found" es) || truthy rt.py (getOrNone "already_applied" es) then
        .ok true
      else do
        let status := getOrNone "status" es
        requireHashable status
        return status ∈ [PyVal.str "found", .str "already_applied", .str "applied",
          .str "completed"]
  | _ => .ok false

def reconciledOutput (call : ToolCall) : PyVal → PyVal
  | .map kind es => toolOutput call ((lookup "result" es).getD (.map kind es))
  | v => toolOutput call v

def reconcileInput (original : StepRecord) (call : ToolCall) : PyVal :=
  dict [("original_step_id", .str original.id), ("tool_call", serializeToolCall call),
    ("arguments", call.arguments.toDict)]

/-- The result of the reconciliation, `none` where the pass ends without one. -/
def reconcileResult (runId : String) (original : StepRecord) (call : ToolCall) :
    Agent (Option PyVal) := do
  let step ← createStep runId "reconcile" call.name (reconcileInput original call) .readOnly
    (original.sequence.getD 0 + 500)
  if step.status = .committed then return some step.outputValue
  else
    match ← claim rt step with
    | none => do
        pause runId "reconciliation is already leased" (some original.id)
        return none
    | some _ => do
        let _ ← markExecuting rt step.id
        match ← reconcileTool rt step.id call with
        | .error exc => do
            let _ ← failStep rt step.id exc
            let _ ← stopFailed rt runId "tool.reconcile_failed" exc.message (some original.id)
            return none
        | .ok value => do
            let _ ← commitStep rt step.id value
              (some ⟨some ("reconcile:" ++ step.id), some value, none⟩)
            return some value

def recordReconciled (runId : String) (original : StepRecord) (call : ToolCall) (value : PyVal) :
    Agent Bool := do
  let _ ← journal (.recordReceipt original.id (reconciledKey original.id)
    (reconciledOutput call value))
  let _ ← appendEvent runId "tool.reconciled"
    (dict [("original_step_id", .str original.id), ("outcome", .str "already_applied")])
    (some original.id)
  return true

def retryAfterReconciliation (runId : String) (original : StepRecord) (call : ToolCall) :
    Agent Bool := do
  let replacement ← createReplacement runId original call
  let entry ← .ofExcept (rt.tools.getEntry call.name)
  match ← approvalOutcome rt runId replacement entry with
  | .rejected => do
      let _ ← cancelStep replacement.id
      let _ ← markRunStatus runId .cancelled
      return false
  | .pending => do
      pause runId "retry after reconciliation requires approval" (some replacement.id)
      return false
  | .approved =>
      runReplacement rt runId "recovered tool is already leased" replacement call fun value =>
        some ⟨some (toolReceiptKey replacement.id), some value, none⟩

def reconcileUncertain (runId : String) (original : StepRecord) : Agent Bool := do
  match ← findReceipt (reconciledKey original.id) with
  | some _ => return true
  | none => do
      let call ← .ofExcept (callFromStep rt original)
      match ← reconcileResult rt runId original call with
      | none => return false
      | some value => do
          if ← .ofExcept (reconcileProvesApplied rt value) then
            recordReconciled runId original call value
          else retryAfterReconciliation rt runId original call

/-- The rejection of an approval ends the run. -/
def cancelRejected (runId : String) (approval : ApprovalRecord) : Agent Unit := do
  match approval.stepId with
  | none => pure ()
  | some stepId => do
      let step ← getStep stepId
      if step.status = .ready ∨ step.status = .uncertain then
        let _ ← cancelStep step.id
        pure ()
      else pure ()
  let run ← getRun runId
  if run.status ∉ [RunStatus.cancelled, .completed] then
    let _ ← markRunStatus runId .cancelled
    return ()
  else return ()

def handleApprovals (runId : String) : List ApprovalRecord → Agent Bool
  | [] => return false
  | approval :: approvals =>
      match approval.status with
      | .pending => do
          pause runId "approval pending" approval.stepId
          return true
      | .rejected => do
          cancelRejected runId approval
          return true
      | .approved => handleApprovals runId approvals

def handleOpaque (runId : String) (step : StepRecord) : Agent Bool := do
  let approvals ← listApprovals runId (some step.id)
  let decisions := approvals.filter fun approval => approval.kind = "uncertain_outcome"
  if decisions.getLast?.any fun approval => approval.status = .approved then
    retryApprovedUncertain rt runId step
  else
    if decisions = [] then
      requestUncertaintyDecision runId step
    pause runId "opaque tool outcome is uncertain" (some step.id)
    return false

def handleUncertain (runId : String) : List StepRecord → Agent Bool
  | [] => return false
  | step :: steps => do
      let resolved ← if step.safety = .reconcilable then reconcileUncertain rt runId step
        else handleOpaque rt runId step
      if resolved then handleUncertain runId steps
      else return true

def handleApprovalsAndUncertainty (runId : String) : Agent Bool := do
  let approvals ← listApprovals runId none
  if ← handleApprovals runId approvals then return true
  else
    let steps ← listSteps runId
    handleUncertain rt runId (steps.filter fun step => step.status = .uncertain)

/-! The run. -/

/-- The source's loop has no bound; `none` says that the turns given did not end it. -/
def executeLoop (runId : String) : ℕ → Agent (Option AgentResult)
  | 0 => return none
  | turns + 1 => do
      let conversation ← reconstruct rt runId
      if conversation.finalText.isSome then
        let _ ← markRunStatus runId .completed
        return some (← result rt runId)
      else if (rt.config.maxIterations : ℤ) ≤ conversation.iteration then
        return some (← stopFailed rt runId "runtime.iteration_limit"
          "maximum model iterations reached" none)
      else
        let calls ← outstandingToolCalls rt runId conversation.iteration
        if calls ≠ [] then
          let outcome ← executeToolGroup rt runId conversation.iteration 0 calls
          if outcome ≠ .continue then return some (← result rt runId)
          else if ← hasRepeatedToolCalls rt runId then
            return some (← stopFailed rt runId "runtime.no_progress"
              "repeated identical tool-call sets" none)
          else executeLoop runId turns
        else
          let completed ← executeModel rt runId conversation.messages conversation.iteration
          if completed then executeLoop runId turns
          else
            let run ← getRun runId
            if run.status ≠ .running then return some (← result rt runId)
            else executeLoop runId turns

def execute (runId : String) (turns : ℕ) : Agent (Option AgentResult) := do
  let run ← getRun runId
  if run.status ∈ [RunStatus.completed, .failed, .cancelled] then return some (← result rt runId)
  else
    let _ ← journal (.reclaimExpiredLeases none)
    let _ ← getRun runId
    if ← handleApprovalsAndUncertainty rt runId then return some (← result rt runId)
    else
      let run ← getRun runId
      if run.status ∈ [RunStatus.paused, .created] then
        let _ ← markRunStatus runId .running
        executeLoop rt runId turns
      else executeLoop rt runId turns

end Agent

end Polaris
