import Polaris.Providers.Encodable
import Polaris.Runtime.Frozen
import Polaris.Runtime.Reads
import Polaris.Journal.History

namespace Polaris
open PyJson PyVal SortedDict

/-! A snapshot before it is stored. -/

mutual
theorem jsonCopy_of_plain (fieldName : String) : ∀ v : PyVal, v.isPlain = true →
    jsonCopy fieldName v = .ok v
  | .null, _ | .bool _, _ | .int _, _ | .float _, _ | .str _, _ => rfl
  | .seq .list xs, h => by
      simp [jsonCopy, copyItems_of_plain fieldName xs h, bind, Except.bind, pure, Except.pure]
  | .seq .tuple _, h => by simp [isPlain] at h
  | .map .dict es, h => by
      simp only [isPlain, Bool.and_eq_true, decide_eq_true_eq] at h
      simp [jsonCopy, copyEntries_of_plain fieldName es h.2, ofPairs_of_nodup h.1, bind,
        Except.bind, pure, Except.pure]
  | .map .proxy _, h => by simp [isPlain] at h
theorem copyItems_of_plain (fieldName : String) : ∀ xs : List PyVal, itemsPlain xs = true →
    copyItems fieldName xs = .ok xs
  | [], _ => rfl
  | x :: xs, h => by
      simp only [itemsPlain, Bool.and_eq_true] at h
      simp [copyItems, jsonCopy_of_plain fieldName x h.1, copyItems_of_plain fieldName xs h.2, bind,
        Except.bind, pure, Except.pure]
theorem copyEntries_of_plain (fieldName : String) : ∀ es : List (String × PyVal),
    entriesPlain es = true → copyEntries fieldName es = .ok es
  | [], _ => rfl
  | (k, x) :: es, h => by
      simp only [entriesPlain, Bool.and_eq_true] at h
      simp [copyEntries, jsonCopy_of_plain fieldName x h.1, copyEntries_of_plain fieldName es h.2,
        bind, Except.bind, pure, Except.pure]
end

theorem JsonObject.ofValue_toDict (fieldName notMapping : String) (o : JsonObject) :
    ofValue fieldName notMapping o.toDict = .ok o :=
  ofValue_of_copy (jsonCopy_of_plain fieldName _ o.plain)

theorem mapM_map_ok {α β γ : Type} {f : β → Except PyError γ} {g : α → β} {h : α → γ}
    {xs : List α} (hf : ∀ x ∈ xs, f (g x) = .ok (h x)) : (xs.map g).mapM f = .ok (xs.map h) := by
  induction xs with
  | nil => rfl
  | cons x xs ih =>
      have hrest := ih fun y hy => hf y (List.mem_cons_of_mem _ hy)
      simp [List.mapM_cons, hf x (by simp), hrest, bind, Except.bind, pure, Except.pure]

theorem ToolCall.deserialize_plain (py : PyBuiltins) (call : ToolCall) :
    deserializeToolCall py (serializeToolCall call) = .ok call := by
  have hmap : requireMapping "serialized tool call arguments must be a mapping"
      call.arguments.toDict = .ok call.arguments.entries := rfl
  simp [serializeToolCall, dict, deserializeToolCall, withGet, getItem, lookup, hmap,
    PyBuiltins.strOf, ToolCall.make, JsonObject.ofValue_toDict, bind, Except.bind, pure, Except.pure]

namespace Message

theorem copyContent_plain (message : Message) :
    copyContent message.contentValue = .ok message.content := by
  unfold contentValue
  cases message.content with
  | none => rfl
  | text s => rfl
  | parts views =>
      have hparts : (views.map JsonObject.toDict).mapM copyPart = .ok (views.map fun o => o) :=
        mapM_map_ok fun o _ =>
          o.ofValue_toDict "Message.content" "Message content parts must be mappings"
      simp [copyContent, hparts, bind, Except.bind, pure, Except.pure]

theorem requireContent_plain (message : Message) :
    requireContent message.contentValue = .ok () := by
  unfold contentValue
  cases message.content with
  | none => rfl
  | text s => rfl
  | parts parts => simp [requireContent, isMapping, JsonObject.toDict, dict]

theorem deserialize_plain (py : PyBuiltins) (message : Message) :
    ∃ es, serializeMessage message = .map .dict es ∧ deserializeMessage py es = .ok message := by
  have hcalls : (message.toolCalls.map serializeToolCall).mapM (deserializeToolCall py) =
      .ok (message.toolCalls.map fun call => call) :=
    mapM_map_ok fun call _ => call.deserialize_plain py
  have hopt : ∀ (fieldName : String) (s : Option String),
      optionalStr fieldName (optStr s) = .ok s := by
    intro fieldName s
    cases s <;> rfl
  have hrole : knownRole py (.str message.role.value) = .ok message.role := by
    simp [knownRole, requireHashable, unhashable, bind, Except.bind, pure, Except.pure]
  refine ⟨_, rfl, ?_⟩
  simp [deserializeMessage, callsOf, getItem, getOrNone, lookup, requireContent_plain, hcalls, make,
    hopt, hrole, copyContent_plain, bind, Except.bind, pure, Except.pure]
  exact dif_pos (by simpa using message.toolHasId)

end Message

namespace Agent
variable {rt : AgentRuntime}

/-! What a model step asks of the provider. -/

def sentRequest (py : PyBuiltins) (snapshot : PyVal) : Except PyError (List Message × PyVal) := do
  requestOf py (← withGet snapshot)

variable {py : PyBuiltins} {iteration : ℤ} {attempt : ℕ} {requestedModel : String}
  {messages : List Message} {definitions : List PyVal}

theorem filter_mapping {α : Type} {f : α → PyVal} (h : ∀ x, isMapping (f x) = true) (xs : List α) :
    (xs.map f).filter isMapping = xs.map f :=
  List.filter_eq_self.2 fun v hv => by
    obtain ⟨x, -, rfl⟩ := List.mem_map.1 hv
    exact h x

theorem sentRequest_plain : sentRequest py
    (requestSnapshot rt iteration attempt requestedModel messages definitions) =
      .ok (messages, .seq .list definitions) := by
  have hread : ∀ message ∈ messages, readMessage py (serializeMessage message) = .ok message := by
    intro message _
    obtain ⟨es, hes, hmessage⟩ := message.deserialize_plain py
    simp [readMessage, hes, withGet, hmessage, bind, Except.bind]
  have hmessages := mapM_map_ok hread
  have hfilter := filter_mapping (f := serializeMessage) (fun _ => rfl) messages
  simp only [List.map_id'] at hmessages
  simp [sentRequest, requestSnapshot, withGet, dict, requestOf, lookup, snapshotMessages, hfilter,
    hmessages, bind, Except.bind, pure, Except.pure]

theorem sentRequest_stored (hfree : ∀ message ∈ messages, message.arrayFree = true) :
    sentRequest py (stored
      (requestSnapshot rt iteration attempt requestedModel messages definitions)) =
      .ok (messages.map Message.normal, .seq .tuple (definitions.map stored)) := by
  have hread : ∀ message ∈ messages,
      readMessage py (stored (serializeMessage message)) = .ok message.normal := by
    intro message hmessage
    obtain ⟨es, hes, hdeserialize⟩ := message.deserialize_stored py
    have hboth := hfree message hmessage
    simp only [Message.arrayFree, Bool.and_eq_true] at hboth
    simp [readMessage, hes, withGet, hdeserialize, hboth.1, hboth.2, bind, Except.bind]
  have hmessages := mapM_map_ok (g := fun message => stored (serializeMessage message)) hread
  have hfilter := filter_mapping (f := fun message => stored (serializeMessage message))
    (fun _ => rfl) messages
  simp [sentRequest, requestSnapshot, withGet, dict, requestOf, lookup_storedEntries, lastOf, lookup,
    snapshotMessages, Function.comp_def, hfilter, hmessages, bind, Except.bind, pure, Except.pure]

/-! What the program of a model step asks of the provider, whatever it is answered. -/

def sends (stepId : String) (request : List Message × PyVal) {β : Type} : AgentCall β → Prop
  | .complete id messages tools => id = stepId ∧ (messages, tools) = request
  | _ => False

section
variable {id : String} {request : List Message × PyVal} {runId requestedModel : String}
  {step : StepRecord} {snapshot : PyVal} {attempt : ℕ}

@[simp] theorem journal_sends {β : Type} {call : JournalCall β} :
    ¬ (journal call).Performs (sends id request) := by
  simp [journal, sends]

@[simp] theorem canReturn_journal {β : Type} {call : JournalCall β} {r : Except PyError β} :
    (journal call).CanReturn r := by
  simp [journal]

theorem claim_sends : ¬ (claim rt step).Performs (sends id request) := by
  simp only [claim, getStep, Program.performs_bind, journal_sends, false_or, not_exists, not_and]
  intro current _ h
  split at h
  · simp at h
  · simp only [Program.performs_bind, journal_sends, false_or] at h
    obtain ⟨_ | claimed, -, h⟩ := h
    · simp at h
    · dsimp only at h
      split at h <;> simp at h

theorem claim_canReturn (step : StepRecord) :
    (claim rt step).CanReturn (.ok (some { step with status := .ready })) := by
  simp only [claim, getStep, Program.canReturn_bind_ok]
  refine ⟨{ step with status := .ready }, canReturn_journal, ?_⟩
  simp only [ne_eq, not_true_eq_false, if_false, Program.canReturn_bind_ok]
  refine ⟨some { step with status := .ready }, canReturn_journal, ?_⟩
  simp

theorem leaseHeartbeat_sends {α : Type} {stepId : String} {body : Agent α} :
    (leaseHeartbeat stepId body).Performs (sends id request) ↔ body.Performs (sends id request) := by
  simp only [leaseHeartbeat, Program.performs_andThen, Program.performs_bind,
    Program.performs_perform, or_iff_left_iff_imp]
  rintro ⟨r, -, h | ⟨failure, -, h⟩⟩
  · exact h.elim
  · cases failure <;> exact h.elim

theorem recordCompletion_sends {reservationId callId : String} {completion : CompletionResult} :
    ¬ (recordCompletion rt runId step reservationId callId completion).Performs
      (sends id request) := by
  cases hcost : rt.estimatesCost <;>
    simp [recordCompletion, hcost, refreshLease, commitStep, sends]

theorem requestModel_sends {reservationId callId : String} :
    (requestModel rt runId step snapshot reservationId callId).Performs (sends id request) ↔
      id = step.id ∧ sentRequest rt.py snapshot = .ok request := by
  have hstep : Nonempty StepRecord := ⟨step⟩
  simp only [requestModel, sentRequest, refreshLease, leaseHeartbeat_sends, Program.performs_bind,
    Program.performs_ofExcept, Program.canReturn_ofExcept, journal_sends, canReturn_journal,
    recordCompletion_sends, Program.performs_perform, Program.canReturn_perform, bind_eq_ok,
    false_or, true_and, and_false, exists_false, or_false, exists_const]
  simp only [sends]
  constructor
  · rintro ⟨es, hes, ⟨ms, ts⟩, hrequest, rfl, rfl⟩
    exact ⟨rfl, es, hes, hrequest⟩
  · rintro ⟨rfl, es, hes, hrequest⟩
    exact ⟨es, hes, request, hrequest, rfl, rfl⟩

theorem JournalOnly.not_sends {α : Type} {p : Agent α} (h : JournalOnly p) :
    ¬ p.Performs (sends id request) :=
  h.not_performs fun e he hsends => by cases e <;> first | exact hsends | exact he

def blankCall : ProviderCallRecord :=
  ⟨"", "", none, "", none, ⟨"null", .null, by decide +kernel⟩, none, .started, 0, 0, 0, 0, none⟩

theorem chargedCall_sends :
    (chargedCall rt runId requestedModel step snapshot attempt).Performs (sends id request) ↔
      id = step.id ∧ sentRequest rt.py snapshot = .ok request := by
  simp only [chargedCall, Program.performs_bind, Program.performs_attempt, journal_sends, false_or,
    Program.canReturn_attempt, canReturn_journal, true_and]
  constructor
  · rintro ⟨exc | reservationId, h⟩
    · exact absurd h modelFailed_journalOnly.not_sends
    · simp only [Program.performs_bind, Program.performs_attempt, journal_sends, false_or,
        Program.canReturn_attempt, canReturn_journal, true_and] at h
      obtain ⟨exc | call, h⟩ := h
      · exact absurd h modelFailed_journalOnly.not_sends
      · simp only [Program.performs_bind, Program.performs_attempt, requestModel_sends] at h
        obtain h | ⟨exc | u, -, h⟩ := h
        · exact h
        · exact absurd h modelFailed_journalOnly.not_sends
        · exact absurd h Program.performs_pure
  · intro h
    refine ⟨.ok "", ?_⟩
    simp only [Program.performs_bind, Program.performs_attempt, journal_sends, false_or,
      Program.canReturn_attempt, canReturn_journal, true_and]
    refine ⟨.ok blankCall, ?_⟩
    simp only [Program.performs_bind, Program.performs_attempt, requestModel_sends]
    exact .inl h

theorem runModelStep_sends (hstatus : step.status ≠ .committed) :
    (runModelStep rt runId requestedModel step snapshot attempt).Performs (sends id request) ↔
      id = step.id ∧ sentRequest rt.py snapshot = .ok request := by
  simp only [runModelStep, if_neg hstatus, Program.performs_bind, claim_sends, false_or]
  constructor
  · rintro ⟨_ | claimed, -, h⟩
    · exact absurd h Program.performs_pure
    · simp only [Program.performs_bind, markExecuting, listProviderCalls, journal_sends, false_or,
        canReturn_journal, true_and, chargedCall_sends, (abandonCalls_journalOnly _).not_sends] at h
      obtain ⟨_, _, -, -, h⟩ := h
      exact h
  · intro h
    refine ⟨_, claim_canReturn step, ?_⟩
    simp only [Program.performs_bind, markExecuting, listProviderCalls, journal_sends, false_or,
      canReturn_journal, true_and, chargedCall_sends, (abandonCalls_journalOnly _).not_sends]
    exact ⟨step, [], (), rfl, h⟩

end

/-! The messages of a conversation. -/

theorem initialMessages_arrayFree {run : RunRecord} (h : initialMessages rt run = .ok messages) :
    ∀ message ∈ messages, message.arrayFree = true := by
  simp only [initialMessages, bind_eq_ok, pure_eq_ok] at h
  obtain ⟨content, -, rfl⟩ := h
  intro message hmessage
  rcases List.mem_append.1 hmessage with hmessage | hmessage
  · split at hmessage
    · obtain rfl := List.mem_singleton.1 hmessage
      rfl
    · simp at hmessage
  · obtain rfl := List.mem_singleton.1 hmessage
    rfl

theorem outputValue_frozen (step : StepRecord) : isFrozen step.outputValue = true := by
  unfold StepRecord.outputValue
  cases step.output with
  | none => rfl
  | some column => exact column.frozen

theorem committedModels_arrayFree {steps : List StepRecord} {models : List (ℤ × CompletionResult)}
    (h : committedModels rt steps = .ok models) :
    ∀ turn ∈ models, turn.2.message.arrayFree = true := by
  suffices hs : ∀ acc : List (ℤ × CompletionResult),
      (∀ turn ∈ acc, turn.2.message.arrayFree = true) → ∀ models,
      steps.foldlM (fun models step =>
        if isCommittedModel step then do
          let iteration ← iterationOf rt step
          let completion ← deserializeCompletion rt.py step.outputValue
          return insertKey iteration completion models
        else return models) acc = Except.ok models →
      ∀ turn ∈ models, turn.2.message.arrayFree = true from hs [] (by simp) models h
  clear h
  induction steps with
  | nil =>
      intro acc hacc models h
      simp only [List.foldlM_nil, pure_eq_ok] at h
      exact h ▸ hacc
  | cons step steps ih =>
      intro acc hacc models h
      rw [List.foldlM_cons, bind_eq_ok] at h
      obtain ⟨next, hnext, h⟩ := h
      refine ih next ?_ models h
      split at hnext
      · simp only [bind_eq_ok, pure_eq_ok] at hnext
        obtain ⟨iteration, -, completion, hcompletion, rfl⟩ := hnext
        intro turn hturn
        rcases mem_insertKey hturn with rfl | hturn
        · exact deserializeCompletion_arrayFree (outputValue_frozen step) hcompletion
        · exact hacc turn hturn
      · rw [pure_eq_ok] at hnext
        exact hnext ▸ hacc

theorem toolReplies_arrayFree {calls : List ToolCall} {outputs : List PyVal}
    (h : toolReplies calls outputs = .ok messages) :
    ∀ message ∈ messages, message.arrayFree = true := by
  refine mapM_forall (P := fun _ => True) ?_ (fun _ _ => trivial) h
  rintro ⟨call, output⟩ message - h
  simp only [bind_eq_ok, pure_eq_ok] at h
  obtain ⟨text, -, rfl⟩ := h
  rfl

theorem replayTurns_arrayFree {turns : List (ℤ × CompletionResult)} {next : ℤ}
    {conversation : Conversation} (hturns : ∀ turn ∈ turns, turn.2.message.arrayFree = true)
    (hmessages : ∀ message ∈ messages, message.arrayFree = true)
    (h : (replayTurns rt runId turns messages next).CanReturn (.ok conversation)) :
    ∀ message ∈ conversation.messages, message.arrayFree = true := by
  induction turns generalizing messages next with
  | nil =>
      obtain rfl := Except.ok.inj h
      exact hmessages
  | cons turn turns ih =>
      have hturn := hturns turn (by simp)
      have hmore : ∀ message ∈ messages ++ [turn.2.message], message.arrayFree = true := by
        intro message hmem
        rcases List.mem_append.1 hmem with hmem | hmem
        · exact hmessages message hmem
        · exact List.mem_singleton.1 hmem ▸ hturn
      simp only [replayTurns] at h
      split at h
      · obtain rfl := Except.ok.inj h
        exact hmessages
      · split at h
        · simp only [Program.canReturn_bind_ok] at h
          obtain ⟨text, -, h⟩ := h
          obtain rfl := Except.ok.inj h
          exact hmore
        · simp only [Program.canReturn_bind_ok] at h
          obtain ⟨_ | outputs, -, h⟩ := h
          · obtain rfl := Except.ok.inj h
            exact hmore
          · simp only [Program.canReturn_bind_ok, Program.canReturn_ofExcept] at h
            obtain ⟨replies, hreplies, h⟩ := h
            refine ih (fun turn hmem => hturns turn (List.mem_cons_of_mem _ hmem)) ?_ h
            intro message hmem
            rcases List.mem_append.1 hmem with hmem | hmem
            · exact hmore message hmem
            · exact toolReplies_arrayFree hreplies message hmem

theorem reconstruct_arrayFree {conversation : Conversation}
    (h : (reconstruct rt runId).CanReturn (.ok conversation)) :
    ∀ message ∈ conversation.messages, message.arrayFree = true := by
  simp only [reconstruct, Program.canReturn_bind_ok, Program.canReturn_ofExcept] at h
  obtain ⟨run, -, messages, hmessages, steps, -, models, hmodels, h⟩ := h
  exact replayTurns_arrayFree (committedModels_arrayFree hmodels)
    (initialMessages_arrayFree hmessages) h

/-! A model step that is executed again. -/

def SameRequest (first resumed : List Message × PyVal) : Prop :=
  resumed.1.map Message.normal = first.1.map Message.normal ∧ stored resumed.2 = stored first.2

/-- The program asks the provider for the step with this request and no other. -/
def Sends {α : Type} (p : Agent α) (stepId : String) (request : List Message × PyVal) : Prop :=
  ∀ id sent, p.Performs (sends id sent) ↔ id = stepId ∧ sent = request

structure ModelStep where
  available : ToolEntry → Bool
  runId : String
  requestedModel : String
  iteration : ℤ
  attempt : ℕ
  conversation : Conversation

namespace ModelStep

def snapshot (rt : AgentRuntime) (m : ModelStep) : PyVal :=
  requestSnapshot rt m.iteration m.attempt m.requestedModel m.conversation.messages
    (rt.tools.getDefinitions m.available)

def create (rt : AgentRuntime) (m : ModelStep) : JournalCall StepRecord :=
  .createStep m.runId "model" (modelStepName m.iteration m.attempt) (m.snapshot rt)
    SafetyClass.readOnly.value (some (m.iteration * 1000))

def creation (rt : AgentRuntime) (m : ModelStep) (a : Ambient) : HonestCall :=
  ⟨⟨m.create rt, a⟩, trivial⟩

/-- The step is created, and later its row is found uncommitted. -/
structure Interrupted (sha : Sha256) (rt : AgentRuntime) (m : ModelStep) (a : Ambient)
    (before after : List HonestCall) (step row : StepRecord) : Prop where
  reconstructed : (reconstruct rt m.runId).CanReturn (.ok m.conversation)
  created : ((m.create rt).perform sha a (history sha before)).1 = .ok step
  isNew : ∀ s ∈ (history sha before).steps, s.id ≠ step.id
  found : row ∈ (history sha (before ++ m.creation rt a :: after)).steps
  same : row.id = step.id
  uncommitted : row.status ≠ .committed

def ResumesAsSent (rt : AgentRuntime) (m : ModelStep) (model : String) (api : ProviderApi)
    (step row : StepRecord) : Prop :=
  ∃ first resumed,
    Sends (runModelStep rt m.runId m.requestedModel step (m.snapshot rt) m.attempt) step.id first ∧
    (∀ requestedModel attempt,
      Sends (runModelStep rt m.runId requestedModel row row.input.value attempt) step.id resumed) ∧
    SameRequest first resumed ∧
    (api.Accepts model first → api.Accepts model resumed)

section
variable {sha : Sha256} {m : ModelStep} {a : Ambient} {before after : List HonestCall}
  {step row : StepRecord} {model : String} {api : ProviderApi}

theorem Interrupted.stored_input (h : m.Interrupted sha rt a before after step row) :
    step.status = .ready ∧ row.input.value = stored (m.snapshot rt) := by
  have hcreated : Journal.createStep sha a m.runId "model" (modelStepName m.iteration m.attempt)
      (m.snapshot rt) SafetyClass.readOnly.value (some (m.iteration * 1000)) (history sha before) =
      (.ok step, history sha (before ++ [m.creation rt a])) := by
    rw [history_concat]
    exact Prod.ext h.created rfl
  obtain ⟨run, inputJson, inputHash, safety, key, stepId, -, hinput, -, -, -, hid, hcase⟩ :=
    Journal.createStep_ok hcreated
  obtain ⟨-, hfound⟩ | ⟨-, column, hstep, hjournal⟩ := hcase
  · exact absurd rfl (h.isNew step (Table.find_mem hfound))
  · have hmem : step ∈ (history sha (before ++ [m.creation rt a])).steps := by
      simp [hjournal]
    have hfound := h.found
    rw [List.append_cons] at hfound
    have horigin := history_origin hmem hfound h.same
    have hrow : row.input = step.input := congrArg (·.2.2.2.2.2.1) horigin
    refine ⟨by simp [hstep, Journal.newStep], ?_⟩
    rw [hrow, hstep]
    exact (canonicalJson_eq_ok hinput).2.1

theorem resumesAsSent_iff (hstep : step.status ≠ .committed) (hrow : row.status ≠ .committed)
    (hid : row.id = step.id) (hinput : row.input.value = stored (m.snapshot rt))
    (hfree : ∀ message ∈ m.conversation.messages, message.arrayFree = true) :
    m.ResumesAsSent rt model api step row ↔ api.Resends (rt.tools.selected m.available) := by
  let tools := rt.tools.selected m.available
  let first : List Message × PyVal :=
    (m.conversation.messages, .seq .list (tools.map ToolEntry.definition))
  let resumed : List Message × PyVal :=
    (m.conversation.messages.map Message.normal,
      .seq .tuple (tools.map fun entry => stored entry.definition))
  have hfirst : Sends (runModelStep rt m.runId m.requestedModel step (m.snapshot rt) m.attempt)
      step.id first := by
    intro id sent
    rw [runModelStep_sends hstep, snapshot, sentRequest_plain]
    exact and_congr_right fun _ => by simp [first, tools, ToolRegistry.getDefinitions, eq_comm]
  have hresumed : ∀ requestedModel attempt,
      Sends (runModelStep rt m.runId requestedModel row row.input.value attempt) step.id
        resumed := by
    intro requestedModel attempt id sent
    rw [runModelStep_sends hrow, hinput, snapshot, sentRequest_stored hfree, hid]
    exact and_congr_right fun _ => by
      simp [resumed, tools, ToolRegistry.getDefinitions, Function.comp_def, eq_comm]
  have hsame : SameRequest first resumed := by
    constructor
    · simp [first, resumed, Function.comp_def]
    · simp [first, resumed, Function.comp_def]
  have haccepts : ProviderApi.Accepts model api first := ProviderApi.accepts_definitions ..
  constructor
  · rintro ⟨sent, resent, hsent, hresent, -, haccepted⟩
    have hsent_eq : sent = first := ((hfirst _ _).1 ((hsent _ _).2 ⟨rfl, rfl⟩)).2
    have hresent_eq : resent = resumed :=
      ((hresumed "" 0 _ _).1 ((hresent "" 0 _ _).2 ⟨rfl, rfl⟩)).2
    subst hsent_eq hresent_eq
    exact ProviderApi.accepts_stored_iff.1 (haccepted haccepts)
  · intro h
    exact ⟨first, resumed, hfirst, hresumed, hsame, fun _ => ProviderApi.accepts_stored_iff.2 h⟩

theorem resumes_as_sent_iff (h : m.Interrupted sha rt a before after step row) :
    m.ResumesAsSent rt model api step row ↔ api.Resends (rt.tools.selected m.available) := by
  obtain ⟨hready, hinput⟩ := h.stored_input
  exact resumesAsSent_iff (by simp [hready]) h.uncommitted h.same hinput
    (reconstruct_arrayFree h.reconstructed)

end

/-! A step whose only tool has an object of parameters, and whose lease ran out. -/

namespace Listing

def sha : Sha256 := .ofTable [
  ("\x7b\"attempt\":1,\"iteration\":0,\"messages\":[\x7b\"content\":\"go\",\"name\":null," ++
    "\"role\":\"user\",\"tool_call_id\":null,\"tool_calls\":[]\x7d],\"provider\":\"local\"," ++
    "\"requested_model\":\"model\",\"tools\":[\x7b\"function\":\x7b\"name\":\"list_files\"," ++
    "\"parameters\":\x7b\"type\":\"object\"\x7d\x7d,\"type\":\"function\"\x7d]\x7d",
    "638bb9458cf60aad037982487b3945d8665e70d6ea6a633bcc601b9ef10a1b4d"),
  ("\x7b\"input_hash\":\"638bb9458cf60aad037982487b3945d8665e70d6ea6a633bcc601b9ef10a1b4d\"," ++
    "\"kind\":\"model\",\"name\":\"completion-0-attempt-1\",\"safety\":\"read_only\"," ++
    "\"sequence\":0\x7d", "7d3e02ded7c896c774979aaef16d4b6df31dbfdd8e60852d27b8120cea1f15b7"),
  ("\x7b\"key\":\"7d3e02ded7c896c774979aaef16d4b6df31dbfdd8e60852d27b8120cea1f15b7\"," ++
    "\"run_id\":\"run_55555555555555555555555555555555\"\x7d",
    "26b8c2f9e75599f9d1a61e76ddb3cf4784e50ab732c875baac066a7e89690b0f")]

def runId : String := "run_55555555555555555555555555555555"

def stepId : String := "step_26b8c2f9e75599f9d1a61e76ddb3cf4784e50ab732c875baac066a7e89690b0f"

def clock (t : Timestamp) : Ambient := ⟨t, t, t, "55555555555555555555555555555555"⟩

def listFiles : ToolEntry :=
  ⟨⟨"list_files", rfl⟩, ⟨[("parameters", dict [("type", .str "object")])], rfl⟩, "",
    .readOnly⟩

def runtime : AgentRuntime where
  py := ⟨fun _ => "", fun _ => "", fun _ => .error (typeError "int"), fun _ _ => false⟩
  providerName := "local"
  providerModel := "model"
  tools := ⟨[("list_files", listFiles)], []⟩
  config := ⟨"", 8, 60, "worker", defaultApprovalPolicy [] [], 0, 1, 0, 3, none, by decide,
    by decide, by decide, by decide⟩
  estimatesCost := false
  providerNamed := by decide

def modelStep : ModelStep :=
  ⟨fun _ => true, runId, "model", 0, 1, ⟨[Message.user "go"], 0, none⟩⟩

theorem decodeJson_braces : decodeJson "\x7b\x7d" = .ok (.map .proxy []) := by decide +kernel

def run : RunRecord :=
  ⟨runId, "single", ⟨"\x7b\"prompt\":\"go\"\x7d", .map .proxy [("prompt", .str "go")], by decide +kernel⟩,
    ⟨"\x7b\x7d", .map .proxy [], decodeJson_braces⟩, .created, none, ⟨none, none, none, none⟩,
    .zero, .zero, 1, 1⟩

def before : List HonestCall := [⟨⟨.createRun "single" (dict [("prompt", .str "go")]) (dict [])
  ⟨none, none, none, none⟩ none none, clock 1⟩, trivial⟩]

/-- The step is leased, executed and, after the lease, ready again. -/
def after : List HonestCall := [
  ⟨⟨.claimReadyStep "worker" 60 (some runId), clock 3⟩, trivial⟩,
  ⟨⟨.markExecuting stepId "worker", clock 4⟩, trivial⟩,
  ⟨⟨.reclaimExpiredLeases none, clock 60000003⟩, trivial⟩]

theorem reconstructed : (reconstruct runtime runId).CanReturn (.ok modelStep.conversation) := by
  simp only [reconstruct, Program.canReturn_bind_ok, Program.canReturn_ofExcept, getRun, listSteps,
    canReturn_journal, true_and]
  exact ⟨run, [Message.user "go"], by rfl, [], [], rfl, rfl⟩

theorem interrupted : ∃ step row,
    modelStep.Interrupted sha runtime (clock 2) before after step row := by
  have hstep : ((modelStep.create runtime).perform sha (clock 2) (history sha before)).1.toOption.any
      (fun step => step.id = stepId) = true := by decide +kernel
  have hrow : ((history sha (before ++ modelStep.creation runtime (clock 2) :: after)).findStep
      stepId).any (fun row => row.status = .ready) = true := by decide +kernel
  obtain ⟨step, hcreated, hid⟩ := (Option.any_eq_true _ _).1 hstep
  obtain ⟨row, hfound, hready⟩ := (Option.any_eq_true _ _).1 hrow
  have hnone : (history sha before).steps = [] := by decide +kernel
  refine ⟨step, row, reconstructed, ?_, by simp [hnone], Table.find_mem hfound, ?_, ?_⟩
  · cases hresult : ((modelStep.create runtime).perform sha (clock 2) (history sha before)).1 with
    | ok created => simp_all [Except.toOption]
    | error e => simp [hresult, Except.toOption] at hcreated
  · rw [of_decide_eq_true hid]
    exact Table.find_key hfound
  · simp [of_decide_eq_true hready]

end Listing

theorem resumes_as_sent_iff_listing : ∃ step row,
    Listing.modelStep.Interrupted Listing.sha Listing.runtime (Listing.clock 2) Listing.before
      Listing.after step row ∧
    (Listing.modelStep.ResumesAsSent Listing.runtime "model" .chatCompletions step row ↔
      ProviderApi.Resends [Listing.listFiles] .chatCompletions) := by
  obtain ⟨step, row, h⟩ := Listing.interrupted
  exact ⟨step, row, h, resumes_as_sent_iff h⟩

theorem not_every_step_resumes_as_sent :
    ¬ ∀ (sha : Sha256) (rt : AgentRuntime) (m : ModelStep) (a : Ambient)
      (before after : List HonestCall) (step row : StepRecord) (model : String) (api : ProviderApi),
      m.Interrupted sha rt a before after step row → m.ResumesAsSent rt model api step row := by
  intro h
  obtain ⟨step, row, hsample⟩ := Listing.interrupted
  obtain ⟨hready, hinput⟩ := hsample.stored_input
  have hresends := (resumesAsSent_iff (by simp [hready]) hsample.uncommitted hsample.same hinput
    (reconstruct_arrayFree hsample.reconstructed)).1
    (h _ _ _ _ _ _ step row "model" .chatCompletions hsample)
  exact absurd hresends (by decide)

end ModelStep

end Agent

end Polaris
