import Polaris.Journal.ExternalKeys
import Polaris.Journal.Reclaim

namespace Polaris
open PyJson PyVal Journal

namespace Journal
variable {sha : Sha256} {a : Ambient} {j j' : Journal} {mode : String} {request config : PyVal}
  {limits : Budget} {parentRunId : Option String} {run : RunRecord}

/-! The creation of a run without a key of the outside. -/

structure CreatedRun (a : Ambient) (mode : String) (config : PyVal) (limits : Budget)
    (parentRunId : Option String) (run : RunRecord) : Prop where
  id : run.id = "run_" ++ a.uuid
  mode : run.mode = mode
  finite : config.allFinite = true
  config : run.config.value = stored config
  limits : run.limits = limits
  parent : run.parentRunId = parentRunId

theorem createRun_created
    (h : createRun sha a mode request config limits parentRunId none j = (.ok run, j')) :
    CreatedRun a mode config limits parentRunId run ∧ j.findRun run.id = none ∧
      j'.runs = j.runs ++ [run] := by
  obtain ⟨identity, -, ⟨⟨k, _, hk, -⟩, -⟩ | ⟨-, hnew, hruns, -⟩⟩ := createRun_identity h
  · simp at hk
  · obtain ⟨-, ⟨-, hmem⟩ | ⟨requestJson, configJson, _, _, rfl, -, hconfig, -⟩⟩ := createRun_ok h
    · exact absurd rfl (Table.find_none hnew run hmem)
    · obtain ⟨hfinite, hvalue, -⟩ := canonicalJson_eq_ok hconfig
      exact ⟨⟨rfl, rfl, hfinite, hvalue, rfl, rfl⟩, hnew, hruns⟩

theorem createRun_parent {externalKey : Option String}
    (h : createRun sha a mode request config limits parentRunId externalKey j = (.ok run, j')) :
    j' = j ∨ ∀ parent ∈ parentRunId, (j.findRun parent).isSome := by
  simp only [createRun, Txn.bind_ok, Txn.require_ok, Txn.lift_ok, Txn.atomically_ok,
    Txn.read_ok] at h
  obtain ⟨_, _, ⟨-, rfl⟩, _, _, ⟨-, rfl⟩, _, _, hlimits, _, _, ⟨-, rfl⟩, _, _, ⟨-, rfl⟩, _, _,
    ⟨-, rfl⟩, _, _, ⟨-, rfl⟩, _, _, ⟨-, rfl⟩, _, _, ⟨-, rfl⟩, found, _, ⟨-, rfl⟩, h⟩ := h
  obtain ⟨-, rfl⟩ := validateLimits_ok hlimits
  cases found with
  | some pair =>
      simp only [Txn.bind_ok, Txn.require_ok, Txn.pure_ok] at h
      obtain ⟨_, _, ⟨-, rfl⟩, -, rfl⟩ := h
      exact .inl rfl
  | none =>
      simp only [Txn.bind_ok, requireRunIfGiven_ok] at h
      obtain ⟨_, _, ⟨hparent, -⟩, -⟩ := h
      exact .inr hparent

theorem validateLimits_returns (h : LimitsNonnegative limits) :
    validateLimits limits j = (.ok (), j) := by
  obtain ⟨hcalls, htokens, hmoney, hwall⟩ := h
  simp only [validateLimits, Txn.bind_ok, validateNonnegativeInteger_ok, validateNonnegative_ok]
  exact ⟨(), j, ⟨hcalls, rfl⟩, (), j, ⟨htokens, rfl⟩, (), j, ⟨hmoney, rfl⟩, hwall, rfl⟩

theorem sha256Hex_returns (sha : Sha256) {v : PyVal} (h : v.allFinite = true) :
    ∃ digest, sha256Hex sha v = .ok digest := by
  obtain ⟨column, hcolumn⟩ := canonicalJson_of_allFinite h
  exact ⟨sha.hexdigest column.text, by simp [sha256Hex, hcolumn, bind, Except.bind, pure, Except.pure]⟩

theorem budgetIdentityHash_returns (sha : Sha256) (limits : Budget) :
    ∃ digest, budgetIdentityHash sha limits = .ok digest := by
  refine sha256Hex_returns sha ?_
  obtain ⟨calls, tokens, money, wall⟩ := limits
  cases calls <;> cases tokens <;> cases money <;> cases wall <;> rfl

/-- When `create_run` without a key of the outside cannot fail. -/
theorem createRun_returns (hmode : mode ≠ "") (hlimits : LimitsNonnegative limits)
    (hrequest : request.allFinite = true) (hconfig : config.allFinite = true)
    (hparent : ∀ parent ∈ parentRunId, (j.findRun parent).isSome)
    (hnew : j.findRun ("run_" ++ a.uuid) = none) :
    ∃ run j', createRun sha a mode request config limits parentRunId none j = (.ok run, j') := by
  obtain ⟨requestJson, hrequestJson⟩ := canonicalJson_of_allFinite hrequest
  obtain ⟨configJson, hconfigJson⟩ := canonicalJson_of_allFinite hconfig
  obtain ⟨modeHash, hmodeHash⟩ := sha256Hex_returns sha (v := .str mode) rfl
  obtain ⟨requestHash, hrequestHash⟩ := sha256Hex_returns sha hrequest
  obtain ⟨configHash, hconfigHash⟩ := sha256Hex_returns sha hconfig
  obtain ⟨budgetHash, hbudgetHash⟩ := budgetIdentityHash_returns sha limits
  let run := newRun a mode requestJson configJson limits parentRunId
  obtain ⟨event, hevent⟩ := @appendEventRow_returns (j.addRun run) a.now run.id "run.created"
    (dict [("mode", .str mode), ("parent_run_id", optStr parentRunId)]) none (by
      cases parentRunId <;> rfl)
  have hfound : ((j.addRun run).addEvent event).findRun run.id = some run := by
    have hnone : Table.find RunRecord.id run.id j.runs = none := hnew
    change Table.find RunRecord.id run.id (j.runs ++ [run]) = some run
    rw [Table.find_append_of_none hnone]
    simp [Table.find]
  refine ⟨run, (j.addRun run).addEvent event, ?_⟩
  simp only [createRun, Txn.bind_ok, Txn.require_ok, Txn.lift_ok, Txn.atomically_ok, Txn.read_ok,
    decide_eq_true_eq]
  refine ⟨(), j, ⟨hmode, rfl⟩, (), j, ⟨rfl, rfl⟩, (), j, validateLimits_returns hlimits, requestJson,
    j, ⟨hrequestJson, rfl⟩, configJson, j, ⟨hconfigJson, rfl⟩, modeHash, j, ⟨hmodeHash, rfl⟩,
    requestHash, j, ⟨hrequestHash, rfl⟩, configHash, j, ⟨hconfigHash, rfl⟩, budgetHash, j,
    ⟨hbudgetHash, rfl⟩, none, j, ⟨rfl, rfl⟩, ?_⟩
  simp only [Txn.bind_ok, requireRunIfGiven_ok, insertRun, Txn.read_ok, Txn.require_ok,
    Txn.write_ok, insertExternalKey, Txn.pure_ok, requireRun_ok]
  exact ⟨(), j, ⟨hparent, rfl⟩, (), _, ⟨none, j, ⟨hnew, rfl⟩, (), j, ⟨rfl, rfl⟩, rfl⟩, (), _,
    ⟨trivial, rfl⟩, event, _, hevent, hfound, rfl⟩

theorem appendEvent_returns {runId eventType : String} {payload : PyVal} (htype : eventType ≠ "")
    (hfound : (j.findRun runId).isSome) (hfinite : payload.allFinite = true) :
    ∃ event, appendEvent a runId eventType payload none j = (.ok event, j.addEvent event) := by
  obtain ⟨run, hrun⟩ := Option.isSome_iff_exists.1 hfound
  obtain ⟨event, hevent⟩ := @appendEventRow_returns j a.now runId eventType payload none hfinite
  refine ⟨event, ?_⟩
  simp only [appendEvent, Txn.bind_ok, Txn.require_ok, Txn.atomically_ok, requireRun_ok,
    requireStepOfRun, Txn.pure_ok, decide_eq_true_eq]
  exact ⟨(), j, ⟨htype, rfl⟩, run, j, ⟨hrun, rfl⟩, (), j, ⟨trivial, rfl⟩, hevent⟩

end Journal

/-! The runs that were created for a parent. -/

def JournalCall.createsChild (parentId : String) {β : Type} : JournalCall β → Prop
  | .createRun _ _ _ _ parentRunId _ => parentRunId = some parentId
  | _ => False

namespace Journal
variable {sha : Sha256} {a : Ambient} {j j' : Journal} {parentId : String}

def children (parentId : String) (j : Journal) : List RunRecord :=
  j.runs.filter fun run => run.parentRunId = some parentId

@[simp] theorem mem_children {run : RunRecord} :
    run ∈ j.children parentId ↔ run ∈ j.runs ∧ run.parentRunId = some parentId := by
  simp [children]

theorem origins_updateRun {runId : String} {f : RunRecord → RunRecord}
    (hf : ∀ run, (f run).origin = run.origin) :
    (j.updateRun runId f).runs.map RunRecord.origin = j.runs.map RunRecord.origin := by
  simp only [updateRun_runs, Table.updateWhere, List.map_map]
  refine List.map_congr_left fun run _ => ?_
  simp only [Function.comp]
  split
  · exact hf run
  · rfl

/-- A call keeps the origins of the runs; it may add one run. -/
theorem origins_of_perform {β : Type} {c : JournalCall β} {b : β} (hj : j.StepsKeyed)
    (h : c.perform sha a j = (.ok b, j')) :
    j'.runs.map RunRecord.origin = j.runs.map RunRecord.origin ∨
      ∃ run, j'.runs = j.runs ++ [run] ∧ j.findRun run.id = none ∧
        (∀ parent ∈ run.parentRunId, (j.findRun parent).isSome) ∧
        ∀ parent ∈ run.parentRunId, c.createsChild parent := by
  cases c with
  | createRun mode request config limits parentRunId externalKey =>
      have hcreate : createRun sha a mode request config limits parentRunId externalKey j = (.ok b, j') := h
      obtain ⟨-, ⟨rfl, -⟩ | ⟨_, _, column, t, hrun, -, -, hnew, ht, hj'⟩⟩ := createRun_ok hcreate
      · exact .inl rfl
      · have hruns : j'.runs = j.runs ++ [b] := by
          obtain rfl | ⟨k, rfl⟩ := ht <;> simp [hj']
        have hparent : b.parentRunId = parentRunId := by rw [hrun]; rfl
        rcases createRun_parent hcreate with hsame | hfound
        · rw [hsame] at hruns
          simp at hruns
        · exact .inr ⟨b, hruns, hnew, hparent ▸ hfound, fun parent hp => hparent ▸ hp⟩
  | markRunStatus =>
      obtain ⟨row, -, ⟨-, rfl⟩ | ⟨-, column, rfl⟩⟩ := markRunStatus_ok h
      · exact .inl rfl
      · exact .inl (origins_updateRun fun _ => rfl)
  | reserveBudget =>
      obtain ⟨-, -, ⟨-, rfl⟩ | ⟨-, row, column, -, -, rfl⟩⟩ := reserveBudget_ok h
      · exact .inl rfl
      · exact .inl (origins_updateRun fun _ => rfl)
  | settleBudget =>
      obtain ⟨-, -, row, -, -, ⟨-, -, rfl⟩ | ⟨-, column, rfl⟩⟩ := settleBudget_ok h
      · exact .inl rfl
      · exact .inl (origins_updateRun fun _ => rfl)
  | _ =>
      have hsame : j'.runs = j.runs :=
        same_of_perform (p := .runs) hj h (by simp [JournalCall.writes])
      exact .inl (by rw [hsame])

theorem children_origins : (j.children parentId).map RunRecord.origin =
    (j.runs.map RunRecord.origin).filter fun o => o.2.2.2.2.1 = some parentId := by
  rw [children, List.filter_map]
  rfl

theorem children_of_perform {β : Type} {c : JournalCall β} {r : Except PyError β} (hj : j.StepsKeyed)
    (hc : ¬ c.createsChild parentId) (h : c.perform sha a j = (r, j')) :
    (j'.children parentId).map RunRecord.origin = (j.children parentId).map RunRecord.origin := by
  cases r with
  | error e =>
      have hsame : (c.perform sha a j).2 = j := c.perform_atomic sha a j e (by rw [h])
      rw [h] at hsame
      rw [show j' = j from hsame]
  | ok b =>
      rcases origins_of_perform hj h with hsame | ⟨run, hruns, -, -, hcreates⟩
      · rw [children_origins, children_origins, hsame]
      · have hother : run.parentRunId ≠ some parentId := fun hp => hc (hcreates parentId hp)
        simp [children, hruns, hother]

theorem children_after (hj : j.StepsKeyed) (c : HonestCall) (hc : ¬ c.1.call.createsChild parentId) :
    ((c.1.after sha j).children parentId).map RunRecord.origin =
      (j.children parentId).map RunRecord.origin :=
  children_of_perform hj hc rfl

theorem children_runCalls {calls : List HonestCall} (hj : j.StepsKeyed)
    (hcalls : ∀ c ∈ calls, ¬ c.1.call.createsChild parentId) :
    ((runCalls sha (calls.map Subtype.val) j).children parentId).map RunRecord.origin =
      (j.children parentId).map RunRecord.origin := by
  induction calls generalizing j with
  | nil => rfl
  | cons c calls ih =>
      have hfirst := @children_after sha j parentId hj c (hcalls c (by simp))
      exact (ih ((@after_moves sha j hj c).stepsKeyed hj) fun d hd =>
        hcalls d (List.mem_cons_of_mem _ hd)).trans hfirst

/-- The parents of runs exist. -/
def Linked (j : Journal) : Prop :=
  ∀ run ∈ j.runs, ∀ parent ∈ run.parentRunId, (j.findRun parent).isSome

theorem linked_after (hj : j.StepsKeyed) (hlinked : j.Linked) (c : HonestCall) :
    (c.1.after sha j).Linked := by
  have hlater : j.Later (c.1.after sha j) := later_after hj c
  have hkept : ∀ parent, (j.findRun parent).isSome → ((c.1.after sha j).findRun parent).isSome := by
    intro parent hparent
    obtain ⟨run, hrun⟩ := Option.isSome_iff_exists.1 hparent
    obtain ⟨run', hrun', -⟩ := hlater.runs parent run hrun
    simp [hrun']
  rcases c.1.outcome_cases sha j with ⟨b, h⟩ | ⟨-, h⟩
  · rcases origins_of_perform hj h with hsame | ⟨run, hruns, -, hfound, -⟩
    · intro row hrow parent hparent
      have hmem : row.origin ∈ j.runs.map RunRecord.origin := hsame ▸ List.mem_map_of_mem hrow
      obtain ⟨old, hold, horigin⟩ := List.mem_map.1 hmem
      have hparents : old.parentRunId = row.parentRunId := congrArg (·.2.2.2.2.1) horigin
      exact hkept parent (hlinked old hold parent (hparents ▸ hparent))
    · intro row hrow parent hparent
      rw [hruns, List.mem_append, List.mem_singleton] at hrow
      rcases hrow with hrow | rfl
      · exact hkept parent (hlinked row hrow parent hparent)
      · exact hkept parent (hfound parent hparent)
  · rwa [h]

theorem history_linked (sha : Sha256) (calls : List HonestCall) : (history sha calls).Linked := by
  induction calls using List.reverseRec with
  | nil => simp [Linked, history, runCalls, empty]
  | append_singleton calls c ih =>
      rw [history_concat]
      exact linked_after (history_invariant sha calls).keyed ih c

/-- An id that no run has is nobody's parent. -/
theorem Linked.children_eq_nil (hj : j.Linked) (h : j.findRun parentId = none) :
    j.children parentId = [] := by
  refine List.filter_eq_nil_iff.2 fun run hrun hparent => ?_
  have hfound := hj run hrun parentId (by simpa using hparent)
  simp [h] at hfound

end Journal

end Polaris
