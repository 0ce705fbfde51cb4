import Polaris.Channels.NoticeCalls
import Polaris.Scheduler.Executors

namespace Polaris
open PyJson SortedDict ChannelStore SchedulerStore

/-! What is delivered of a run of the scheduler. -/

/-- The harness, with the identifiers of the allowlists as `str` writes them. -/
structure DeliveryHarness extends ChannelHarness where
  allowedChatIds : List String
  allowedChannelIds : List String

def platformOf (value : String) : Except PyError Platform :=
  if value = "telegram" then .ok .telegram
  else if value = "slack" then .ok .slack
  else .error (valueError (Journal.pyRepr value ++ " is not a valid Platform"))

def deliveryKey (runId : String) : String := "scheduler:" ++ runId ++ ":delivery"

def RunView.deliveryText (runId : String) (run : RunView) : String :=
  let text := "Scheduled run " ++ runId ++ ": " ++ run.status.value
  let output := if run.status = .completed then run.finalOutput.getD "" else ""
  if output = "" then text else text ++ "\n" ++ output

namespace DeliveryHarness
variable (harness : DeliveryHarness)

/-- `str(target.get(key, ""))` -/
def targetText (key : String) (target : List (String × PyVal)) : String :=
  (lookup key target).elim "" harness.store.py.strOf

def allowedChannels : Platform → List String
  | .telegram => harness.allowedChatIds
  | .slack => harness.allowedChannelIds

/-- The first of the checks of `enqueue_delivery`, and the channel of the target. -/
def deliveryChannel (target : List (String × PyVal)) : Except PyError (Platform × String) := do
  let platform ← platformOf (harness.targetText "platform" target)
  let channelId := pyStrip (harness.targetText "channel_id" target)
  if channelId = "" then .error (valueError "delivery target requires channel_id")
  else if (harness.preparer platform).isNone then
    .error (valueError (platform.value ++ " delivery is not enabled"))
  else if channelId ∉ harness.allowedChannels platform then
    .error (valueError (platform.value ++ " delivery target is not in the configured allowlist"))
  else return (platform, channelId)

def deliveryThread (platform : Platform) (channelId : String) (target : List (String × PyVal)) :
    String :=
  let value := getOrNone "thread_key" target
  if Agent.truthy harness.store.py value then harness.store.py.strOf value
  else platform.value ++ ":" ++ channelId

def deliveryMessage (target : List (String × PyVal)) (runId : String)
    (channel : Platform × String) (run : RunView) : OutboundMessage where
  platform := channel.1
  idempotencyKey := deliveryKey runId
  channelId := channel.2
  threadKey := harness.deliveryThread channel.1 channel.2 target
  text := run.deliveryText runId
  operation := .send
  parseMode := .plain
  messageId := none
  callbackQueryId := none
  disableNotification := false
  chunkIndex := 0
  chunkCount := 1
  metadata := target.filter fun entry => entry.1 ∉ ["platform", "channel_id", "thread_key"]

/-- What `enqueue_delivery` is about to enqueue; `run` is what the service has under the id. -/
def preparedDelivery (target : List (String × PyVal)) (runId : String) (run : Option RunView) :
    Except PyError (List OutboundMessage) := do
  let channel ← harness.deliveryChannel target
  match run with
  | none => .error (Journal.notFound "run" runId)
  | some run => harness.prepareOutbound (harness.deliveryMessage target runId channel run)

end DeliveryHarness

/-! The tasks of the engine. -/

/-- `completed_at, id` -/
def JobRun.completedBefore (run other : JobRun) : Bool :=
  run.completedAt.getD 0 < other.completedAt.getD 0 ||
    run.completedAt.getD 0 = other.completedAt.getD 0 && run.id ≤ other.id

def SchedulerStore.listPendingDeliveries (limit : Option ℤ) : SchedulerStore.Op (List JobRun) := do
  Txn.require (limit.all (1 ≤ ·)) (validationError "delivery limit must be positive")
  Txn.read fun t =>
    let rows := (t.runs.filter fun run => run.status = .succeeded &&
      run.deliveryStatus = .pending).insertionSort fun run other => run.completedBefore other
    limit.elim rows fun limit => rows.take limit.toNat

/-- Where `_execute` is. -/
inductive TaskPhase where
  | spawned
  | submitting
  | submitted (polarisRunId : String)
  | waiting (polarisRunId : String)
  | returned (polarisRunId : String)
  | completed
  | done
deriving DecidableEq

namespace TaskPhase

def beats : TaskPhase → Bool
  | .submitting | .submitted _ | .waiting _ => true
  | _ => false

def polarisRunId : TaskPhase → Option String
  | .submitted polarisRunId | .waiting polarisRunId | .returned polarisRunId => some polarisRunId
  | _ => none

end TaskPhase

structure ScheduledTask where
  runId : String
  phase : TaskPhase

def ScheduledTask.of (run : JobRun) : ScheduledTask := ⟨run.id, .spawned⟩

def ScheduledTask.inPhase (phase : TaskPhase) (task : ScheduledTask) : ScheduledTask :=
  { task with phase := phase }

/-- Where `_deliver_run` is. -/
inductive DeliveryPhase where
  | starting
  | calling (target : List (String × PyVal)) (polarisRunId : String)
  | enqueueing (parts : List OutboundMessage)
  | recording (status : DeliveryStatus) (error : Option String)
deriving DecidableEq

structure Deliverer where
  runId : String
  phase : DeliveryPhase

def PyError.asText (exc : PyError) : String := exc.cls.name ++ ": " ++ exc.message

namespace DeliveryPhase

def failing (exc : PyError) : DeliveryPhase := .recording .failed (some exc.asText)

/-- How a delivery goes on once the occurrence has been read. -/
def first (current : JobRun) : Option DeliveryPhase :=
  if current.status ≠ .succeeded ∨ current.deliveryStatus ≠ .pending then none
  else current.payload.delivery.map fun target =>
    if current.cancelRequested then .recording .suppressed none
    else current.polarisRunId.elim
      (failing (valueError "successful scheduled run has no Polaris run id")) (.calling target)

end DeliveryPhase

/-- Both stores, the runs of the service, and the tasks of the engine; `occurrence` remembers for
which occurrence a run has been submitted. -/
structure Delivering where
  tables : SchedulerTables
  outbox : List OutboxRow
  runs : String → Option RunView
  occurrence : String → Option String
  tasks : List ScheduledTask
  deliverers : List Deliverer

namespace Delivering

def after (s : Delivering) (t : SchedulerTables) : Delivering := { s with tables := t }

def spawns (s : Delivering) (runs : List JobRun) (t : SchedulerTables) : Delivering :=
  { s with
    tables := t
    tasks := s.tasks ++ runs.map ScheduledTask.of }

def moves (s : Delivering) (n : ℕ) (task : ScheduledTask) (t : SchedulerTables) : Delivering :=
  { s with
    tables := t
    tasks := s.tasks.set n task }

/-- The submit callback has created a run. -/
def submits (s : Delivering) (n : ℕ) (task : ScheduledTask) (polarisRunId : String)
    (run : RunView) : Delivering :=
  { s with
    runs := Function.update s.runs polarisRunId (some run)
    occurrence := Function.update s.occurrence polarisRunId (some task.runId)
    tasks := s.tasks.set n (task.inPhase (.submitted polarisRunId)) }

/-- `_active_deliveries` -/
def isActive (s : Delivering) (runId : String) : Bool := s.deliverers.any (·.runId = runId)

def delivers (s : Delivering) (ids : List String) : Delivering :=
  { s with deliverers := s.deliverers ++ ids.map (⟨·, .starting⟩) }

/-- A delivery goes on, or it is over. -/
def proceeds (s : Delivering) (n : ℕ) (runId : String) (phase : Option DeliveryPhase)
    (outbox : List OutboxRow) : Delivering :=
  { s with
    outbox := outbox
    deliverers := phase.elim (s.deliverers.eraseIdx n) fun phase =>
      s.deliverers.set n ⟨runId, phase⟩ }

def records (s : Delivering) (n : ℕ) (t : SchedulerTables) : Delivering :=
  { s with
    tables := t
    deliverers := s.deliverers.eraseIdx n }

end Delivering

/-- A chunk of the delivery of a run. -/
def IsDeliveryKey (runId key : String) : Prop := ∃ place, key = partKey (deliveryKey runId) place

/-- What else becomes of the outbox: rows keep their keys and their contents, and those that are
added are of no delivery. -/
structure OutboxGoesOn (outbox outbox' : List OutboxRow) : Prop where
  keyed : Table.Keyed OutboxRow.idempotencyKey outbox'
  kept : ∀ row ∈ outbox, ∃ row' ∈ outbox', row'.idempotencyKey = row.idempotencyKey
  others : ∀ row' ∈ outbox', ∀ runId, IsDeliveryKey runId row'.idempotencyKey → ∃ row ∈ outbox,
    row.idempotencyKey = row'.idempotencyKey ∧ SameContent (some row') (some row)

/-- What becomes of the runs of the service: those that have ended stay as they are. -/
structure RunsGoOn (runs runs' : String → Option RunView) : Prop where
  kept : ∀ runId, (runs runId).isSome = true → (runs' runId).isSome = true
  ended : ∀ runId run, runs runId = some run → run.status.isTerminal = true →
    runs' runId = some run

/-- The calls that are made from outside of the engine. -/
def SchedulerCall.isAsked {β : Type} : SchedulerCall β → Bool
  | .createJob .. | .updateJob .. | .pauseJob .. | .resumeJob .. | .cancelJob ..
  | .requestCancel .. => true
  | _ => false

/-- The runs that a call asks to cancel. -/
def SchedulerCall.cancels {β : Type} (run : JobRun) : SchedulerCall β → Bool
  | .cancelJob jobId _ => run.jobId = jobId
  | .requestCancel runId _ => run.id = runId
  | _ => false

def PendingWrite.cancels (run : JobRun) : PendingWrite → Bool
  | .requestCancel runId _ => run.id = runId
  | _ => false

/-- The steps that may go wrong: runs are cancelled, or a chunk of a delivery is enqueued. -/
inductive DeliveryEvent where
  | cancels (asked : JobRun → Bool)
  | enqueues (runId : String)
  | other

inductive DeliveryStep (store : SchedulerStore) (engine : SchedulerEngine)
    (harness : DeliveryHarness) (s : Delivering) : DeliveryEvent → Delivering → Prop
  | asks {β : Type} {c : SchedulerCall β} {a : Draws} {r : Except PyError β} {t : SchedulerTables} :
      c.isAsked = true → c.perform store a s.tables = (r, t) →
      DeliveryStep store engine harness s (.cancels fun run => c.cancels run) (s.after t)
  -- a request whose first half has been made before
  | lands (w : PendingWrite) :
      DeliveryStep store engine harness s (.cancels w.cancels) (s.after (w.land s.tables).2)
  -- a tick
  | recovers {now : Timestamp} {a : Draws} {r : Except PyError (List JobRun)}
      {t : SchedulerTables} : recoverStaleRuns (some now) a s.tables = (r, t) →
      DeliveryStep store engine harness s .other (s.after t)
  | sweeps {pending : List JobRun} {t : SchedulerTables} :
      listPendingDeliveries (some engine.batch) s.tables = (.ok pending, t) →
      DeliveryStep store engine harness s .other
        (s.delivers ((pending.map JobRun.id).filter fun runId => !s.isActive runId))
  | claims {now : Timestamp} {startupCap : Option ℤ} {a : Draws} {runs : List JobRun}
      {t : SchedulerTables} :
      claimDueRuns store now engine.owner (.timedelta engine.lease) engine.batch startupCap none a
        s.tables = (.ok runs, t) →
      DeliveryStep store engine harness s .other (s.spawns runs t)
  -- the execution of an occurrence
  | startsCancelled {n : ℕ} {task : ScheduledTask} {now : Timestamp} {a : Draws} {row : JobRun}
      {r : Except PyError JobRun} {t : SchedulerTables} : s.tasks[n]? = some task →
      task.phase = .spawned → s.tables.findRun task.runId = some row → row.cancelRequested = true →
      SchedulerStore.cancel task.runId (some engine.owner) (some now) a s.tables = (r, t) →
      DeliveryStep store engine harness s .other (s.moves n (task.inPhase .done) t)
  | marks {n : ℕ} {task : ScheduledTask} {now : Timestamp} {a : Draws} {row : JobRun}
      {r : Except PyError JobRun} {t : SchedulerTables} : s.tasks[n]? = some task →
      task.phase = .spawned → s.tables.findRun task.runId = some row →
      row.cancelRequested = false →
      markRunning task.runId engine.owner (some now) none a s.tables = (r, t) →
      DeliveryStep store engine harness s .other (s.moves n (task.inPhase
        (if r.toOption.any (fun run => run.status ≠ .cancelled) then .submitting else .done)) t)
  | beats {n : ℕ} {task : ScheduledTask} {now : Timestamp} {a : Draws} {r : Except PyError JobRun}
      {t : SchedulerTables} : s.tasks[n]? = some task → task.phase.beats = true →
      heartbeat task.runId engine.owner (.timedelta engine.lease) (some now) a s.tables = (r, t) →
      DeliveryStep store engine harness s .other (s.after t)
  | submits {n : ℕ} {task : ScheduledTask} {polarisRunId : String} {run : RunView} :
      s.tasks[n]? = some task → task.phase = .submitting → s.runs polarisRunId = none →
      run.status.isTerminal = false →
      DeliveryStep store engine harness s .other (s.submits n task polarisRunId run)
  | attaches {n : ℕ} {task : ScheduledTask} {polarisRunId : String} {now : Timestamp} {a : Draws}
      {run : JobRun} {t : SchedulerTables} : s.tasks[n]? = some task →
      task.phase = .submitted polarisRunId →
      setPolarisRunId task.runId engine.owner polarisRunId (some now) a s.tables = (.ok run, t) →
      DeliveryStep store engine harness s .other (s.moves n (task.inPhase (.waiting polarisRunId)) t)
  | returns {n : ℕ} {task : ScheduledTask} {polarisRunId : String} {run : RunView} :
      s.tasks[n]? = some task → task.phase = .waiting polarisRunId →
      s.runs polarisRunId = some run → run.status = .completed →
      DeliveryStep store engine harness s .other
        (s.moves n (task.inPhase (.returned polarisRunId)) s.tables)
  | fails {n : ℕ} {task : ScheduledTask} {row : JobRun} {exc : PyError} {now : Timestamp}
      {a : Draws} {r : Except PyError JobRun} {t : SchedulerTables} :
      s.tasks[n]? = some task → task.phase.beats = true →
      s.tables.findRun task.runId = some row →
      complete task.runId engine.owner (if row.cancelRequested then .cancelled else .failed)
        (if row.cancelRequested then none else some exc.asText) task.phase.polarisRunId (some now) a
          s.tables = (r, t) →
      DeliveryStep store engine harness s .other (s.moves n (task.inPhase .done) t)
  | succeeds {n : ℕ} {task : ScheduledTask} {row : JobRun} {polarisRunId : String}
      {now : Timestamp} {a : Draws} {r : Except PyError JobRun} {t : SchedulerTables} :
      s.tasks[n]? = some task → task.phase = .returned polarisRunId →
      s.tables.findRun task.runId = some row →
      complete task.runId engine.owner (if row.cancelRequested then .cancelled else .succeeded) none
        (some polarisRunId) (some now) a s.tables = (r, t) →
      DeliveryStep store engine harness s .other (s.moves n (task.inPhase
        (if r.toOption.any (fun run => run.status = .succeeded) then .completed else .done)) t)
  | deliversInline {n : ℕ} {task : ScheduledTask} : s.tasks[n]? = some task →
      task.phase = .completed →
      DeliveryStep store engine harness s .other
        ((s.moves n (task.inPhase .done) s.tables).delivers
          (if s.isActive task.runId then [] else [task.runId]))
  -- the delivery of an occurrence
  | reads {n : ℕ} {d : Deliverer} {current : JobRun} : s.deliverers[n]? = some d →
      d.phase = .starting → s.tables.findRun d.runId = some current →
      DeliveryStep store engine harness s .other
        (s.proceeds n d.runId (DeliveryPhase.first current) s.outbox)
  | prepares {n : ℕ} {d : Deliverer} {target : List (String × PyVal)} {polarisRunId : String} :
      s.deliverers[n]? = some d → d.phase = .calling target polarisRunId →
      DeliveryStep store engine harness s .other (s.proceeds n d.runId
        (some (match harness.preparedDelivery target polarisRunId (s.runs polarisRunId) with
          | .ok parts => .enqueueing parts
          | .error exc => .failing exc)) s.outbox)
  | enqueues {n : ℕ} {d : Deliverer} {part : OutboundMessage} {parts : List OutboundMessage}
      {now : Timestamp} {row : OutboxRow} {t : ChannelTables} : s.deliverers[n]? = some d →
      d.phase = .enqueueing (part :: parts) →
      enqueueOutbox harness.store part ⟨now, now, ""⟩ ⟨[], s.outbox, [], []⟩ = (.ok row, t) →
      DeliveryStep store engine harness s (.enqueues d.runId)
        (s.proceeds n d.runId (some (.enqueueing parts)) t.outbox)
  | enqueueFails {n : ℕ} {d : Deliverer} {part : OutboundMessage} {parts : List OutboundMessage}
      {now : Timestamp} {exc : PyError} {t : ChannelTables} : s.deliverers[n]? = some d →
      d.phase = .enqueueing (part :: parts) →
      enqueueOutbox harness.store part ⟨now, now, ""⟩ ⟨[], s.outbox, [], []⟩ = (.error exc, t) →
      DeliveryStep store engine harness s .other
        (s.proceeds n d.runId (some (.failing exc)) t.outbox)
  | enqueued {n : ℕ} {d : Deliverer} : s.deliverers[n]? = some d → d.phase = .enqueueing [] →
      DeliveryStep store engine harness s .other
        (s.proceeds n d.runId (some (.recording .succeeded none)) s.outbox)
  | records {n : ℕ} {d : Deliverer} {status : DeliveryStatus} {error : Option String}
      {now : Timestamp} {a : Draws} {r : Except PyError JobRun} {t : SchedulerTables} :
      s.deliverers[n]? = some d → d.phase = .recording status error →
      recordDelivery d.runId status error (some now) a s.tables = (r, t) →
      DeliveryStep store engine harness s .other (s.records n t)
  -- the runs of the service and the rest of the outbox
  | serves {runs : String → Option RunView} : RunsGoOn s.runs runs →
      DeliveryStep store engine harness s .other { s with runs := runs }
  | sends {outbox : List OutboxRow} : OutboxGoesOn s.outbox outbox →
      DeliveryStep store engine harness s .other { s with outbox := outbox }
  | stops : DeliveryStep store engine harness s .other { s with tasks := [], deliverers := [] }

/-- The runs of an engine with nothing delivered yet, in which every step meets a condition. -/
inductive DeliveryReach (store : SchedulerStore) (engine : SchedulerEngine)
    (harness : DeliveryHarness) (C : Delivering → DeliveryEvent → Prop) : Delivering → Prop
  | start {outbox : List OutboxRow} {runs : String → Option RunView} :
      Table.Keyed OutboxRow.idempotencyKey outbox →
      (∀ row ∈ outbox, ∀ runId, ¬IsDeliveryKey runId row.idempotencyKey) →
      DeliveryReach store engine harness C ⟨⟨[], []⟩, outbox, runs, fun _ => none, [], []⟩
  | step {s s' : Delivering} {event : DeliveryEvent} : DeliveryReach store engine harness C s →
      DeliveryStep store engine harness s event s' → C s event →
      DeliveryReach store engine harness C s'

end Polaris
