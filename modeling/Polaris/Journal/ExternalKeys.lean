import Polaris.Journal.Addresses

namespace Polaris
open PyJson Journal

/-- What a key of the outside stands for, by digests. -/
structure RunIdentity where
  modeHash : String
  requestHash : String
  configHash : String
  budgetHash : String
  parentRunId : Option String
deriving DecidableEq

namespace RunIdentity

def of (sha : Sha256) (mode : String) (request config : PyVal) (limits : Budget)
    (parentRunId : Option String) : Except PyError RunIdentity := do
  let modeHash ← sha256Hex sha (.str mode)
  let requestHash ← sha256Hex sha request
  let configHash ← sha256Hex sha config
  let budgetHash ← budgetIdentityHash sha limits
  return ⟨modeHash, requestHash, configHash, budgetHash, parentRunId⟩

def key (identity : RunIdentity) (a : Ambient) (runId externalKey : String) : ExternalKey :=
  ⟨externalKey, runId, identity.modeHash, identity.requestHash, identity.configHash,
    identity.budgetHash, identity.parentRunId, a.now⟩

end RunIdentity

def ExternalKey.identity (key : ExternalKey) : RunIdentity :=
  ⟨key.modeHash, key.requestHash, key.configHash, key.budgetHash, key.parentRunId⟩

namespace Journal
variable {sha : Sha256} {a : Ambient} {j j' : Journal} {mode : String} {request config : PyVal}
  {limits : Budget} {parentRunId externalKey : Option String} {run : RunRecord}

theorem externalRun_eq_some {k : String} {key : ExternalKey} : externalRun k j = some (key, run) ↔
    Table.find ExternalKey.externalKey k j.externalKeys = some key ∧
      j.findRun key.runId = some run := by
  simp only [externalRun, Option.bind_eq_bind, Option.bind_eq_some_iff]
  constructor
  · rintro ⟨key', hkey, run', hrun, hpair⟩
    cases hpair
    exact ⟨hkey, hrun⟩
  · rintro ⟨hkey, hrun⟩
    exact ⟨key, hkey, run, hrun, rfl⟩

/-- The call found the run of its key. -/
def FindsRun (j : Journal) (externalKey : Option String) (identity : RunIdentity) (run : RunRecord) :
    Prop :=
  ∃ k key, externalKey = some k ∧ externalRun k j = some (key, run) ∧ key.identity = identity

theorem createRun_identity (h : createRun sha a mode request config limits parentRunId externalKey j =
    (.ok run, j')) : ∃ identity,
      RunIdentity.of sha mode request config limits parentRunId = .ok identity ∧
      (FindsRun j externalKey identity run ∧ j' = j ∨
        (∀ k ∈ externalKey, externalRun k j = none) ∧ j.findRun run.id = none ∧
          j'.runs = j.runs ++ [run] ∧
          j'.externalKeys = j.externalKeys ++ (externalKey.map (identity.key a run.id)).toList) := by
  simp only [createRun, Txn.bind_ok, Txn.require_ok, Txn.lift_ok, Txn.atomically_ok,
    Txn.read_ok] at h
  obtain ⟨_, _, ⟨-, rfl⟩, _, _, ⟨-, rfl⟩, _, _, hlimits, requestJson, _, ⟨-, rfl⟩,
    configJson, _, ⟨-, rfl⟩, modeHash, _, ⟨hmode, rfl⟩, requestHash, _, ⟨hrequest, rfl⟩, configHash, _,
    ⟨hconfig, rfl⟩, budgetHash, _, ⟨hbudget, rfl⟩, found, _, ⟨hfound, rfl⟩, h⟩ := h
  obtain ⟨-, rfl⟩ := validateLimits_ok hlimits
  refine ⟨⟨modeHash, requestHash, configHash, budgetHash, parentRunId⟩, ?_, ?_⟩
  · simp [RunIdentity.of, hmode, hrequest, hconfig, hbudget, bind, Except.bind, pure, Except.pure]
  · cases found with
    | some pair =>
        obtain ⟨key, existing⟩ := pair
        simp only [Txn.bind_ok, Txn.require_ok, Txn.pure_ok, Bool.and_eq_true, decide_eq_true_eq] at h
        obtain ⟨_, _, ⟨⟨⟨⟨⟨h₁, h₂⟩, h₃⟩, h₄⟩, h₅⟩, rfl⟩, rfl, rfl⟩ := h
        obtain ⟨k, hk, hkey⟩ := Option.bind_eq_some_iff.1 hfound
        exact .inl ⟨⟨k, key, hk, hkey, by simp [ExternalKey.identity, h₁, h₂, h₃, h₄, h₅]⟩, rfl⟩
    | none =>
        simp only [Txn.bind_ok, requireRunIfGiven_ok, insertRun, Txn.read_ok, Txn.require_ok,
          Txn.write_ok, appendEventRow_ok, requireRun_ok] at h
        obtain ⟨_, _, ⟨-, rfl⟩, _, _, ⟨_, _, ⟨rfl, rfl⟩, _, _, ⟨hnew, rfl⟩, rfl⟩, _, t, hkey, _, _,
          ⟨column, -, rfl, rfl⟩, hrun, rfl⟩ := h
        have hnone : j.findRun (newRun a mode requestJson configJson limits parentRunId).id = none := by
          simpa using hnew
        have hruns : t.runs = j.runs ++ [newRun a mode requestJson configJson limits parentRunId] := by
          obtain rfl | ⟨k, rfl⟩ := insertExternalKey_ok hkey <;> rfl
        obtain rfl : newRun a mode requestJson configJson limits parentRunId = run := by
          simp only [findRun, addEvent_runs, hruns] at hrun hnone
          rw [Table.find_append_of_none hnone] at hrun
          simpa [Table.find] using hrun
        refine .inr ⟨fun k hk => ?_, hnone, hruns, ?_⟩
        · rw [Option.mem_def] at hk
          simpa [hk] using hfound
        · cases externalKey with
          | none =>
              simp only [insertExternalKey, Txn.pure_ok] at hkey
              simp [← hkey.2]
          | some k =>
              simp only [insertExternalKey, Txn.write_ok] at hkey
              simp [← hkey, RunIdentity.key]

/-- What `create_run` asks of its arguments. -/
structure Creatable (mode : String) (limits : Budget) (externalKey : Option String) : Prop where
  mode : mode ≠ ""
  key : externalKey.all (fun k => !k.toList.all Char.isWhitespace) = true
  limits : LimitsNonnegative limits

theorem createRun_creatable (h : createRun sha a mode request config limits parentRunId externalKey j =
    (.ok run, j')) : Creatable mode limits externalKey := by
  simp only [createRun, Txn.bind_ok, Txn.require_ok, decide_eq_true_eq] at h
  obtain ⟨_, _, ⟨hmode, rfl⟩, _, _, ⟨hkey, rfl⟩, _, _, hlimits, -⟩ := h
  exact ⟨hmode, hkey, (validateLimits_ok hlimits).1⟩

theorem createRun_of_findsRun {identity : RunIdentity} (hcreatable : Creatable mode limits externalKey)
    (hidentity : RunIdentity.of sha mode request config limits parentRunId = .ok identity)
    (h : FindsRun j externalKey identity run) :
    createRun sha a mode request config limits parentRunId externalKey j = (.ok run, j) := by
  obtain ⟨k, key, rfl, hfound, hsame⟩ := h
  simp only [RunIdentity.of, bind_eq_ok, pure_eq_ok] at hidentity
  obtain ⟨modeHash, hmode, requestHash, hrequest, configHash, hconfig, budgetHash, hbudget, rfl⟩ :=
    hidentity
  obtain ⟨requestJson, hrequestJson, -⟩ := sha256Hex_eq_ok hrequest
  obtain ⟨configJson, hconfigJson, -⟩ := sha256Hex_eq_ok hconfig
  have hlimits : validateLimits limits j = (.ok (), j) := by
    obtain ⟨h₁, h₂, h₃, h₄⟩ := hcreatable.limits
    simp only [validateLimits, Txn.bind_ok, validateNonnegativeInteger_ok, validateNonnegative_ok]
    exact ⟨(), j, ⟨h₁, rfl⟩, (), j, ⟨h₂, rfl⟩, (), j, ⟨h₃, rfl⟩, h₄, rfl⟩
  simp only [ExternalKey.identity, RunIdentity.mk.injEq] at hsame
  obtain ⟨h₁, h₂, h₃, h₄, h₅⟩ := hsame
  simp only [createRun, Txn.bind_ok, Txn.require_ok, Txn.lift_ok, Txn.atomically_ok, Txn.read_ok,
    decide_eq_true_eq]
  refine ⟨(), j, ⟨hcreatable.mode, rfl⟩, (), j, ⟨hcreatable.key, rfl⟩, (), j, hlimits, requestJson, j,
    ⟨hrequestJson, rfl⟩, configJson, j, ⟨hconfigJson, rfl⟩, modeHash, j, ⟨hmode, rfl⟩, requestHash, j,
    ⟨hrequest, rfl⟩, configHash, j, ⟨hconfig, rfl⟩, budgetHash, j, ⟨hbudget, rfl⟩, some (key, run), j,
    ⟨hfound, rfl⟩, ?_⟩
  simp only [Txn.bind_ok, Txn.require_ok, Txn.pure_ok]
  exact ⟨(), j, ⟨by simp [h₁, h₂, h₃, h₄, h₅], rfl⟩, trivial, rfl⟩

/-- Each key of the outside leads to a run. -/
def KeysLead (j : Journal) : Prop :=
  ∀ key ∈ j.externalKeys, (j.findRun key.runId).isSome

theorem externalKeys_after (sha : Sha256) (hj : j.StepsKeyed) (c : HonestCall) :
    ∃ more, (c.1.after sha j).externalKeys = j.externalKeys ++ more ∧
      ∀ key ∈ more, ((c.1.after sha j).findRun key.runId).isSome := by
  by_cases hwrites : Part.externalKeys ∈ c.1.call.writes
  · rcases c.1.outcome_cases sha j with ⟨run, hok⟩ | ⟨-, hsame⟩
    · obtain ⟨⟨call, a⟩, hhonest⟩ := c
      cases call with
      | createRun mode request config limits parentRunId externalKey =>
          obtain ⟨identity, -, ⟨-, hsame⟩ | ⟨-, hnone, hruns, hkeys⟩⟩ := createRun_identity hok
          · exact ⟨[], by simp [hsame], by simp⟩
          · refine ⟨_, hkeys, fun key hkey => ?_⟩
            obtain ⟨k, -, rfl⟩ : ∃ k, externalKey = some k ∧ identity.key a run.id k = key := by
              simpa using hkey
            rw [findRun, hruns, RunIdentity.key, Table.find_append_of_none hnone]
            simp [Table.find]
      | _ => simp [JournalCall.writes] at hwrites
    · exact ⟨[], by simp [hsame], by simp⟩
  · have hsame : (c.1.after sha j).externalKeys = j.externalKeys := Issued.after_same hj c.1 hwrites
    exact ⟨[], by simp [hsame], by simp⟩

theorem keysLead_after (hj : j.StepsKeyed) (h : j.KeysLead) (c : HonestCall) :
    (c.1.after sha j).KeysLead := by
  obtain ⟨more, hkeys, hmore⟩ := externalKeys_after sha hj c
  intro key hkey
  rw [hkeys, List.mem_append] at hkey
  rcases hkey with hkey | hkey
  · obtain ⟨run, hrun⟩ := Option.isSome_iff_exists.1 (h key hkey)
    obtain ⟨run', hrun', -⟩ := (@later_after sha _ hj c).runs _ _ hrun
    simp [hrun']
  · exact hmore key hkey

theorem history_keysLead (sha : Sha256) (calls : List HonestCall) : (history sha calls).KeysLead := by
  induction calls using List.reverseRec with
  | nil => simp [KeysLead, history, runCalls, empty]
  | append_singleton calls c ih =>
      rw [history_concat]
      exact keysLead_after (history_invariant sha calls).keyed ih c

theorem findsRun_after {identity : RunIdentity} (hj : j.StepsKeyed)
    (h : FindsRun j externalKey identity run) (c : HonestCall) :
    ∃ run', FindsRun (c.1.after sha j) externalKey identity run' ∧ run'.id = run.id := by
  obtain ⟨k, key, rfl, hfound, hsame⟩ := h
  obtain ⟨hkey, hrun⟩ := externalRun_eq_some.1 hfound
  obtain ⟨run', hrun', horigin⟩ := (@later_after sha _ hj c).runs _ _ hrun
  obtain ⟨more, hkeys, -⟩ := externalKeys_after sha hj c
  refine ⟨run', ⟨k, key, rfl, externalRun_eq_some.2 ⟨?_, hrun'⟩, hsame⟩, congrArg Prod.fst horigin⟩
  rw [hkeys]
  exact Table.find_append_of_some hkey

/-- A created run is found by its key from then on. -/
theorem createRun_findsRun {k : String} (hlead : j.KeysLead)
    (h : createRun sha a mode request config limits parentRunId (some k) j = (.ok run, j')) :
    ∃ identity, RunIdentity.of sha mode request config limits parentRunId = .ok identity ∧
      FindsRun j' (some k) identity run := by
  obtain ⟨identity, hidentity, ⟨hfinds, rfl⟩ | ⟨hnone, hfresh, hruns, hkeys⟩⟩ := createRun_identity h
  · exact ⟨identity, hidentity, hfinds⟩
  · refine ⟨identity, hidentity, k, identity.key a run.id k, rfl, externalRun_eq_some.2 ⟨?_, ?_⟩, rfl⟩
    · have hfree : Table.find ExternalKey.externalKey k j.externalKeys = none := by
        cases hkey : Table.find ExternalKey.externalKey k j.externalKeys with
        | none => rfl
        | some key =>
            obtain ⟨other, hother⟩ := Option.isSome_iff_exists.1 (hlead key (Table.find_mem hkey))
            exact absurd (hnone k rfl) (by simp [externalRun_eq_some.2 ⟨hkey, hother⟩])
      rw [hkeys, Table.find_append_of_none hfree]
      simp [Table.find, RunIdentity.key]
    · rw [findRun, hruns, RunIdentity.key, Table.find_append_of_none hfresh]
      simp [Table.find]

end Journal

end Polaris
