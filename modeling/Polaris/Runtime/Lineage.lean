import Polaris.Runtime.System

namespace Polaris
open PyJson PyVal SortedDict Journal Agent

namespace StepRecord

def inputAt (key : String) (r : StepRecord) : PyVal := getIfMapping key .null r.input.value

/-- The step is a step of the model for the iteration. -/
def ModelAt (iteration : ℤ) (r : StepRecord) : Prop :=
  r.kind = "model" ∧ r.inputAt "iteration" = .int iteration

/-- The step belongs to one logical call of a tool. -/
def CallAt (iteration index : ℤ) (r : StepRecord) : Prop :=
  r.kind = "tool" ∧ r.inputAt "iteration" = .int iteration ∧ r.inputAt "call_index" = .int index

def Recovers (p r : StepRecord) : Prop := r.inputAt "recovery_of" = .str p.id

theorem Follows.input {r s : StepRecord} (h : r.Follows s) : s.input = r.input :=
  congrArg (·.2.2.2.2.2.1) h.origin

theorem Follows.kind {r s : StepRecord} (h : r.Follows s) : s.kind = r.kind :=
  congrArg (·.2.2.2.1) h.origin

theorem Follows.name {r s : StepRecord} (h : r.Follows s) : s.name = r.name :=
  congrArg (·.2.2.2.2.1) h.origin

theorem Follows.safety {r s : StepRecord} (h : r.Follows s) : s.safety = r.safety :=
  congrArg (·.2.2.2.2.2.2.2.1) h.origin

theorem Follows.sequence {r s : StepRecord} (h : r.Follows s) : s.sequence = r.sequence :=
  congrArg (·.2.2.2.2.2.2.2.2) h.origin

theorem Follows.inputAt {r s : StepRecord} (h : r.Follows s) (key : String) :
    s.inputAt key = r.inputAt key := by rw [StepRecord.inputAt, h.input, StepRecord.inputAt]

end StepRecord

def Decided (runId : String) (p : StepRecord) (j : Journal) : Prop :=
  ∃ a ∈ j.approvals, a.runId = runId ∧ a.stepId = some p.id ∧ a.kind = "uncertain_outcome" ∧
    a.status = .approved

/-- What the runtime creates steps of a run with. -/
inductive Planned (rt : AgentRuntime) (runId : String) (j : Journal) :
    String → String → PyVal → SafetyClass → ℤ → Prop where
  | model (iteration : ℤ) (attempt : ℕ) (requestedModel : String) (messages : List Message)
      (definitions : List PyVal) (name : String) (sequence : ℤ) :
      Planned rt runId j "model" name
        (requestSnapshot rt iteration attempt requestedModel messages definitions) .readOnly sequence
  | reconcile (original : StepRecord) (call : ToolCall) (name : String) (sequence : ℤ) :
      Planned rt runId j "reconcile" name (reconcileInput original call) .readOnly sequence
  | original {m : StepRecord} {completion : CompletionResult} {iteration : ℤ} {index : ℕ}
      {call : ToolCall} {entry : ToolEntry} : m ∈ j.steps → m.runId = runId → m.ModelAt iteration →
      m.status = .committed → deserializeCompletion rt.py m.outputValue = .ok completion →
      completion.message.toolCalls[index]? = some call → rt.tools.getEntry call.name = .ok entry →
      Planned rt runId j "tool" call.name (toolInput iteration index call) entry.safetyClass
        (iteration * 1000 + index + 1)
  | replacement {p : StepRecord} {call : ToolCall} {input : PyVal} : p ∈ j.steps → p.runId = runId →
      callFromStep rt p = .ok call → recoveryInput p = .ok input →
      p.status = .uncertain ∨ p.status = .cancelled →
      (p.safety ≠ .reconcilable → Decided runId p j) →
      Planned rt runId j "tool" call.name input p.safety (p.sequence.getD 0 + 600)

def Created (sha : Sha256) (rt : AgentRuntime) (runId : String) (j : Journal) (r : StepRecord) :
    Prop :=
  ∃ input sequence, Planned rt runId j r.kind r.name input r.safety sequence ∧
    r.input.value = stored input ∧
    createdId sha runId r.kind r.name input r.safety sequence = .ok r.id

variable {sha : Sha256} {rt : AgentRuntime} {runId : String} {j j' : Journal}

theorem Decided.later {p q : StepRecord} (h : Decided runId p j) (hlater : j.Later j')
    (hid : q.id = p.id) : Decided runId q j' := by
  obtain ⟨a, ha, hrun, hstep, hkind, hstatus⟩ := h
  obtain ⟨b, hb, hab⟩ := hlater.approvals a ha
  obtain rfl := hab.decided (by simp [hstatus])
  exact ⟨b, hb, hrun, hid ▸ hstep, hkind, hstatus⟩

theorem callFromStep_congr {p q : StepRecord} (h : q.input = p.input) :
    callFromStep rt q = callFromStep rt p := by rw [callFromStep, h, callFromStep]

theorem recoveryInput_congr {p q : StepRecord} (h : q.input = p.input) (hid : q.id = p.id) :
    recoveryInput q = recoveryInput p := by rw [recoveryInput, h, hid, recoveryInput]

theorem Planned.later {kind name : String} {input : PyVal} {safety : SafetyClass} {sequence : ℤ}
    (h : Planned rt runId j kind name input safety sequence) (hlater : j.Later j') :
    Planned rt runId j' kind name input safety sequence := by
  cases h with
  | model => exact .model ..
  | reconcile original call => exact .reconcile original call ..
  | original hm hrun hmodel hcommitted hread hcall hentry =>
      obtain ⟨s, hs, hfollows⟩ := hlater.steps _ hm
      obtain rfl := hfollows.terminal (.inl hcommitted)
      exact .original hs hrun hmodel hcommitted hread hcall hentry
  | @replacement p call _ hp hrun hcall hinput hdoubt hdecided =>
      obtain ⟨q, hq, hfollows⟩ := hlater.steps p hp
      rw [← hfollows.safety, ← hfollows.sequence]
      rw [← callFromStep_congr hfollows.input] at hcall
      rw [← recoveryInput_congr hfollows.input hfollows.id] at hinput
      refine .replacement hq (hfollows.runId.trans hrun) hcall hinput (hfollows.doubted hdoubt)
        fun hsafety => ?_
      rw [hfollows.safety] at hsafety
      exact (hdecided hsafety).later hlater hfollows.id

theorem Created.later {r s : StepRecord} (h : Created sha rt runId j r) (hlater : j.Later j')
    (hfollows : r.Follows s) : Created sha rt runId j' s := by
  obtain ⟨input, sequence, hplanned, hinput, hid⟩ := h
  refine ⟨input, sequence, ?_, hfollows.input ▸ hinput, ?_⟩
  · rw [hfollows.kind, hfollows.name, hfollows.safety]
    exact hplanned.later hlater
  · rw [hfollows.kind, hfollows.name, hfollows.safety, hfollows.id]
    exact hid

/-! What a created row says about itself. -/

theorem storedEntries_nodup (es : List (String × PyVal)) :
    ((storedEntries es).map Prod.fst).Nodup := by
  rw [storedEntries, map_fst_freezeEntries]
  exact (sortKeys_sorted _).keys_nodup

theorem inputAt_stored {r : StepRecord} {es : List (String × PyVal)}
    (h : r.input.value = stored (dict es)) (key : String) :
    r.inputAt key = ((lastOf key es).map stored).getD .null := by
  simp [StepRecord.inputAt, h, dict, getIfMapping, getOrNone, lookup_storedEntries]

theorem replacement_inputAt {p r : StepRecord} {v input : PyVal} (hp : p.input.value = stored v)
    (hinput : recoveryInput p = .ok input) (hr : r.input.value = stored input) :
    p.Recovers r ∧ ∀ key, key ≠ "recovery_of" → r.inputAt key = p.inputAt key := by
  cases v with
  | map kind fs =>
      rw [stored_map] at hp
      rw [recoveryInput, hp] at hinput
      obtain rfl := Except.ok.inj hinput
      have hnodup := setKey_nodup "recovery_of" (.str p.id) (storedEntries_nodup fs)
      have hat : ∀ key, r.inputAt key =
          ((lookup key (setKey "recovery_of" (.str p.id) (storedEntries fs))).map stored).getD
            .null := by
        intro key
        rw [inputAt_stored hr, lastOf_of_nodup key hnodup]
      refine ⟨by simp [StepRecord.Recovers, hat, lookup_setKey], fun key hkey => ?_⟩
      rw [hat, lookup_setKey, if_neg hkey, StepRecord.inputAt, hp]
      simp only [getIfMapping, getOrNone, lookup_storedEntries]
      cases lastOf key fs <;> simp
  | null | bool | int | float | str | seq => simp [recoveryInput, hp] at hinput

/-- The call of a committed turn of the run, and the tool it names. -/
def CallOf (rt : AgentRuntime) (runId : String) (j : Journal) (iteration : ℤ) (index : ℕ)
    (call : ToolCall) (entry : ToolEntry) : Prop :=
  ∃ m ∈ j.steps, ∃ completion, m.runId = runId ∧ m.ModelAt iteration ∧ m.status = .committed ∧
    deserializeCompletion rt.py m.outputValue = .ok completion ∧
    completion.message.toolCalls[index]? = some call ∧ rt.tools.getEntry call.name = .ok entry

structure IsOriginal (sha : Sha256) (rt : AgentRuntime) (runId : String) (j : Journal)
    (r : StepRecord) (iteration : ℤ) (index : ℕ) (call : ToolCall) (entry : ToolEntry) : Prop where
  ofTurn : CallOf rt runId j iteration index call entry
  place : r.CallAt iteration index
  safety : r.safety = entry.safetyClass
  recovers : r.inputAt "recovery_of" = .null
  input : r.input.value = stored (toolInput iteration index call)
  id : createdId sha runId "tool" call.name (toolInput iteration index call) entry.safetyClass
    (iteration * 1000 + index + 1) = .ok r.id

structure IsReplacement (sha : Sha256) (rt : AgentRuntime) (runId : String) (j : Journal)
    (p r : StepRecord) (call : ToolCall) (input : PyVal) : Prop where
  mem : p ∈ j.steps
  ofRun : p.runId = runId
  reads : callFromStep rt p = .ok call
  recovery : recoveryInput p = .ok input
  doubted : p.status = .uncertain ∨ p.status = .cancelled
  decided : p.safety ≠ .reconcilable → Decided runId p j
  kind : r.kind = "tool"
  safety : r.safety = p.safety
  id : createdId sha runId "tool" call.name input p.safety (p.sequence.getD 0 + 600) = .ok r.id
  input : r.input.value = stored input

theorem Created.kinds {r : StepRecord} (h : Created sha rt runId j r) :
    (∃ iteration, r.ModelAt iteration ∧ r.safety = .readOnly) ∨
      r.kind = "reconcile" ∧ r.safety = .readOnly ∨
      (∃ iteration index call entry, IsOriginal sha rt runId j r iteration index call entry) ∨
      ∃ p call input, IsReplacement sha rt runId j p r call input := by
  obtain ⟨input, sequence, hplanned, hinput, hid⟩ := h
  generalize hk : r.kind = kind at hplanned hid
  generalize hn : r.name = name at hplanned hid
  generalize hs : r.safety = safety at hplanned hid
  cases hplanned with
  | model iteration =>
      refine .inl ⟨iteration, ⟨hk, ?_⟩, rfl⟩
      simp [inputAt_stored hinput, lastOf, lookup]
  | reconcile => exact .inr (.inl ⟨rfl, rfl⟩)
  | @original m completion iteration index call entry hm hrun hmodel hcommitted hread hcall hentry =>
      refine .inr (.inr (.inl ⟨iteration, index, call, entry,
        ⟨m, hm, completion, hrun, hmodel, hcommitted, hread, hcall, hentry⟩, ⟨hk, ?_, ?_⟩, hs, ?_,
        hinput, hid⟩))
      · simp [inputAt_stored hinput, lastOf, lookup]
      · simp [inputAt_stored hinput, lastOf, lookup]
      · simp [inputAt_stored hinput, lastOf, lookup]
  | @replacement p call _ hp hrun hcall hrecovery hdoubt hdecided =>
      exact .inr (.inr (.inr ⟨p, call, input,
        ⟨hp, hrun, hcall, hrecovery, hdoubt, hdecided, hk, hs, hid, hinput⟩⟩))

def NoLiveModel (runId : String) (iteration : ℤ) (j : Journal) : Prop :=
  ∀ r ∈ j.steps, r.runId = runId → r.ModelAt iteration → ¬ r.Live

def Rejected (runId : String) (j : Journal) : Prop :=
  ∃ a ∈ j.approvals, a.runId = runId ∧ a.status = .rejected

theorem Rejected.later (h : Rejected runId j) (hlater : j.Later j') : Rejected runId j' := by
  obtain ⟨a, ha, hrun, hstatus⟩ := h
  obtain ⟨b, hb, hab⟩ := hlater.approvals a ha
  obtain rfl := hab.decided (by simp [hstatus])
  exact ⟨b, hb, hrun, hstatus⟩

/-- What holds of the run whenever the runtime alone built it. -/
structure Inv (sha : Sha256) (rt : AgentRuntime) (runId : String) (w : World) : Prop where
  journal : w.journal.Invariant
  addressed : w.journal.Addressed sha
  executed : ∀ id, w.executions.count id ≤ w.journal.eventCount .execute id
  created : ∀ r ∈ w.journal.steps, r.runId = runId → Created sha rt runId w.journal r
  models : ∀ r ∈ w.journal.steps, ∀ s ∈ w.journal.steps, r.runId = runId → s.runId = runId →
    r.Live → s.Live → ∀ iteration, r.ModelAt iteration → s.ModelAt iteration → r = s
  cancelled : ∀ r ∈ w.journal.steps, r.runId = runId → r.status = .cancelled →
    Rejected runId w.journal
  doubted : ∀ r ∈ w.journal.steps, r.runId = runId → r.status = .uncertain →
    r.safety = .reconcilable ∨ r.safety = .opaqueSideEffect
  receipts : ∀ r ∈ w.journal.steps, r.runId = runId →
    (w.journal.findReceipt (reconciledKey r.id)).isSome → r.safety = .reconcilable

variable {w w' : World}

theorem StepRecord.Follows.live {r s : StepRecord} (h : r.Follows s) (hs : s.Live) : r.Live := by
  by_contra hr
  exact h.dead hr hs

theorem StepRecord.Follows.modelAt {r s : StepRecord} (h : r.Follows s) {iteration : ℤ} :
    s.ModelAt iteration ↔ r.ModelAt iteration := by
  rw [ModelAt, h.kind, h.inputAt, ModelAt]

/-- A change that creates no step of the run. -/
theorem Inv.of_rows (h : Inv sha rt runId w) (hjournal : w'.journal.Invariant)
    (haddressed : w'.journal.Addressed sha) (hlater : w.journal.Later w'.journal)
    (hexecuted : ∀ id, w'.executions.count id ≤ w'.journal.eventCount .execute id)
    (hrows : ∀ s ∈ w'.journal.steps, s.runId = runId → ∃ r ∈ w.journal.steps, r.Follows s)
    (hcancelled : ∀ s ∈ w'.journal.steps, s.runId = runId → s.status = .cancelled →
      s ∈ w.journal.steps ∨ Rejected runId w.journal)
    (hdoubted : ∀ s ∈ w'.journal.steps, s.runId = runId → s.status = .uncertain →
      s ∈ w.journal.steps ∨ s.safety = .reconcilable ∨ s.safety = .opaqueSideEffect)
    (hreceipts : ∀ r ∈ w.journal.steps, r.runId = runId →
      (w'.journal.findReceipt (reconciledKey r.id)).isSome →
      (w.journal.findReceipt (reconciledKey r.id)).isSome ∨ r.safety = .reconcilable) :
    Inv sha rt runId w' where
  journal := hjournal
  addressed := haddressed
  executed := hexecuted
  created s hs hrun := by
    obtain ⟨r, hr, hrs⟩ := hrows s hs hrun
    exact (h.created r hr (hrs.runId.symm.trans hrun)).later hlater hrs
  models s hs t ht hrun hrun' hlive hlive' iteration hmodel hmodel' := by
    obtain ⟨r, hr, hrs⟩ := hrows s hs hrun
    obtain ⟨q, hq, hqt⟩ := hrows t ht hrun'
    obtain rfl := h.models r hr q hq (hrs.runId.symm.trans hrun) (hqt.runId.symm.trans hrun')
      (hrs.live hlive) (hqt.live hlive') iteration (hrs.modelAt.1 hmodel) (hqt.modelAt.1 hmodel')
    exact hjournal.keyed.eq_of_key hs ht (hrs.id.trans hqt.id.symm)
  cancelled s hs hrun hstatus := by
    rcases hcancelled s hs hrun hstatus with hold | hrejected
    · exact (h.cancelled s hold hrun hstatus).later hlater
    · exact hrejected.later hlater
  doubted s hs hrun hstatus := by
    rcases hdoubted s hs hrun hstatus with hold | hsafety
    · exact h.doubted s hold hrun hstatus
    · exact hsafety
  receipts s hs hrun hsome := by
    obtain ⟨r, hr, hrs⟩ := hrows s hs hrun
    have hrun' := hrs.runId.symm.trans hrun
    rw [hrs.id] at hsome
    rw [hrs.safety]
    rcases hreceipts r hr hrun' hsome with hold | hsafety
    · exact h.receipts r hr hrun' hold
    · exact hsafety

end Polaris
