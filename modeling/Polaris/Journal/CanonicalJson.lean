import Polaris.Journal.Addresses
import Polaris.Journal.Ownership
import Polaris.Library.PyJsonSame

namespace Polaris
open PyJson PyVal SortedDict Journal

/-! What is stored is written again as it was. -/

mutual
theorem allFinite_normal : ∀ v : PyVal, v.allFinite = true → v.normal.allFinite = true
  | .null, _ | .bool _, _ | .int _, _ | .str _, _ => rfl
  | .float _, h => h
  | .seq _ xs, h => itemsFinite_normal xs h
  | .map _ es, h => by
      rw [normal, allFinite, entriesFinite_iff]
      intro e he
      exact entriesFinite_iff.1 (entriesFinite_normal es h) e (mem_sortKeys he)
theorem itemsFinite_normal : ∀ xs : List PyVal, itemsFinite xs = true →
    itemsFinite (normalItems xs) = true
  | [], _ => rfl
  | x :: xs, h => by
      obtain ⟨hx, hxs⟩ := Bool.and_eq_true_iff.1 h
      exact Bool.and_eq_true_iff.2 ⟨allFinite_normal x hx, itemsFinite_normal xs hxs⟩
theorem entriesFinite_normal : ∀ es : List (String × PyVal), entriesFinite es = true →
    entriesFinite (normalEntries es) = true
  | [], _ => rfl
  | (_, x) :: es, h => by
      obtain ⟨hx, hes⟩ := Bool.and_eq_true_iff.1 h
      exact Bool.and_eq_true_iff.2 ⟨allFinite_normal x hx, entriesFinite_normal es hes⟩
end

mutual
theorem allFinite_deepFreeze : ∀ v : PyVal, (deepFreeze v).allFinite = v.allFinite
  | .null | .bool _ | .int _ | .float _ | .str _ | .seq .tuple _ | .map .proxy _ => rfl
  | .seq .list xs => itemsFinite_freeze xs
  | .map .dict es => entriesFinite_freeze es
theorem itemsFinite_freeze : ∀ xs : List PyVal, itemsFinite (freezeItems xs) = itemsFinite xs
  | [] => rfl
  | x :: xs => by
      rw [freezeItems, itemsFinite, itemsFinite, allFinite_deepFreeze x, itemsFinite_freeze xs]
theorem entriesFinite_freeze : ∀ es : List (String × PyVal),
    entriesFinite (freezeEntries es) = entriesFinite es
  | [] => rfl
  | (_, x) :: es => by
      rw [freezeEntries, entriesFinite, entriesFinite, allFinite_deepFreeze x,
        entriesFinite_freeze es]
end

theorem JsonColumn.eq_of_text {c d : JsonColumn} (h : c.text = d.text) : c = d := by
  have hvalue := JsonColumn.value_eq h
  obtain ⟨text, value, _⟩ := c
  obtain ⟨text', value', _⟩ := d
  obtain rfl : text = text' := h
  obtain rfl : value = value' := hvalue
  rfl

section
variable {v w : PyVal} {c d : JsonColumn}

theorem canonicalJson_value (h : canonicalJson v = .ok c) : canonicalJson c.value = .ok c := by
  obtain ⟨hfinite, hvalue, htext⟩ := canonicalJson_eq_ok h
  have hstored : c.value.allFinite = true := by
    rw [hvalue, stored, allFinite_deepFreeze]
    exact allFinite_normal v hfinite
  obtain ⟨d, hd⟩ := canonicalJson_of_allFinite hstored
  have hsame : c.value.normal = v.normal := by
    rw [hvalue, stored, normal_deepFreeze, normal_normal]
  have hdtext := (canonicalJson_eq_ok hd).2.2
  rw [hsame, ← htext] at hdtext
  rw [hd, JsonColumn.eq_of_text hdtext]

theorem text_eq_iff (hv : canonicalJson v = .ok c) (hw : canonicalJson w = .ok d) :
    c.text = d.text ↔ v.normal = w.normal := by
  obtain ⟨hfinite, -, htext⟩ := canonicalJson_eq_ok hv
  obtain ⟨hfinite', -, htext'⟩ := canonicalJson_eq_ok hw
  have hdumps : dumps v = some c.text := by rw [dumps, if_pos hfinite, htext]
  have hdumps' : dumps w = some d.text := by rw [dumps, if_pos hfinite', htext']
  exact dumps_inj hdumps hdumps'

theorem sha256Hex_value {sha : Sha256} (h : canonicalJson c.value = .ok c) :
    sha256Hex sha c.value = .ok (sha.hexdigest c.text) := by
  rw [sha256Hex, h]
  rfl

end

/-! What is recorded is recorded again without a change. -/

namespace Journal
variable {sha : Sha256} {a : Ambient} {j j' : Journal} {r : StepRecord} {β : Type}

/-- Creating the step again with the fields of its row finds the row. -/
structure Recreatable (sha : Sha256) (j : Journal) (r : StepRecord) : Prop where
  addressed : r.Addressed sha
  canonical : canonicalJson r.input.value = .ok r.input
  named : r.kind ≠ "" ∧ r.name ≠ ""
  sequenced : r.sequence.all (0 ≤ ·) = true
  run : (j.findRun r.runId).isSome = true

theorem Recreatable.createStep (h : Recreatable sha j r) (hj : j.StepsKeyed) (hr : r ∈ j.steps) :
    createStep sha a r.runId r.kind r.name r.input.value r.safety.value r.sequence j =
      (.ok r, j) := by
  obtain ⟨run, hrun⟩ := Option.isSome_iff_exists.1 h.run
  have hhash : sha256Hex sha r.input.value = .ok r.inputHash := by
    rw [sha256Hex_value h.canonical, h.addressed.input]
  have htaken : (j.steps.any fun s => s.id = r.id || (s.runId = r.runId && s.key = r.key)) = true :=
    List.any_eq_true.2 ⟨r, hr, by simp⟩
  have hfind : j.findStep r.id = some r := Table.Keyed.find hj hr
  simp only [Journal.createStep, Txn.bind_ok, Txn.require_ok, Txn.lift_ok, Txn.atomically_ok,
    requireRun_ok, Txn.read_ok, Txn.ite_ok, requireStep_ok]
  exact ⟨(), j, ⟨by simpa using h.named, rfl⟩, (), j, ⟨h.sequenced, rfl⟩,
    r.safety, j, ⟨coerceSafety_value r.safety, rfl⟩, r.input, j, ⟨h.canonical, rfl⟩,
    r.inputHash, j, ⟨hhash, rfl⟩, r.key, j, ⟨h.addressed.key, rfl⟩, r.id, j, ⟨h.addressed.id, rfl⟩,
    run, j, ⟨hrun, rfl⟩, true, j, ⟨htaken, rfl⟩, .inr ⟨by simp, hfind, rfl⟩⟩

/-- Recording the receipt again with the fields of its row finds the row. -/
structure Rerecordable (j : Journal) (x : ReceiptRecord) : Prop where
  canonical : canonicalJson x.payload.value = .ok x.payload
  keyed : x.idempotencyKey ≠ ""
  step : ∃ step ∈ j.steps, x.stepId = some step.id ∧ step.runId = x.runId

theorem Rerecordable.inTransaction {x : ReceiptRecord} (h : Rerecordable j x) {key : String}
    (hfind : j.findReceipt key = some x) (now : Timestamp) :
    recordReceiptInTransaction sha x.runId x.stepId key x.payload.value now j = (.ok x, j) := by
  have hkey : x.idempotencyKey = key := Table.find_key hfind
  have hnamed := h.keyed
  rw [hkey] at hnamed
  simp only [recordReceiptInTransaction, Txn.bind_ok, Txn.require_ok, Txn.lift_ok, Txn.read_ok]
  refine ⟨(), j, ⟨by simpa using hnamed, rfl⟩, x.payload, j, ⟨h.canonical, rfl⟩, some x, j,
    ⟨hfind, rfl⟩, ?_⟩
  simp only [Txn.bind_ok, Txn.require_ok, Txn.pure_ok]
  exact ⟨(), j, ⟨by simp, rfl⟩, trivial, rfl⟩

theorem Rerecordable.recordReceipt {x : ReceiptRecord} (h : Rerecordable j x) (hj : j.StepsKeyed)
    {key : String} (hfind : j.findReceipt key = some x) :
    ∃ stepId, x.stepId = some stepId ∧
      recordReceipt sha a stepId key x.payload.value j = (.ok x, j) := by
  obtain ⟨step, hstep, hid, hrun⟩ := h.step
  have hagain : recordReceiptInTransaction sha x.runId x.stepId key x.payload.value a.now j =
      (.ok x, j) := h.inTransaction hfind a.now
  rw [hid, ← hrun] at hagain
  refine ⟨step.id, hid, ?_⟩
  simp only [Journal.recordReceipt, Txn.atomically_ok, Txn.bind_ok, requireStep_ok, Txn.read_ok,
    Txn.ite_ok, Txn.pure_ok]
  exact ⟨step, j, ⟨Table.Keyed.find hj hstep, rfl⟩, some x, j, ⟨hfind, rfl⟩, x, j, hagain,
    .inr ⟨by simp, rfl, rfl⟩⟩

/-! Every row of a journal was written by a call. -/

theorem createStep_recreatable {runId kind name : String} {input : PyVal} {safety : String}
    {sequence : Option ℤ}
    (h : Journal.createStep sha a runId kind name input safety sequence j = (.ok r, j')) :
    ∀ s ∈ j'.steps, s ∈ j.steps ∨ Recreatable sha j s := by
  obtain ⟨run, inputJson, inputHash, safetyValue, key, stepId, hrun, hinput, hhash, -, hkey, hid,
    ⟨rfl, -⟩ | ⟨-, column, rfl, rfl⟩⟩ := createStep_ok h
  · exact fun s hs => .inl hs
  · simp only [Journal.createStep, Txn.bind_ok, Txn.require_ok] at h
    obtain ⟨_, _, ⟨hnamed, rfl⟩, _, _, ⟨hsequenced, rfl⟩, -⟩ := h
    obtain ⟨column', hcolumn, hdigest⟩ := sha256Hex_eq_ok hhash
    rw [hinput] at hcolumn
    obtain rfl := Except.ok.inj hcolumn
    intro s hs
    rcases List.mem_append.1 hs with hs | hs
    · exact .inl hs
    · obtain rfl := List.mem_singleton.1 hs
      exact .inr ⟨⟨hdigest, hkey, hid⟩, canonicalJson_value hinput, by simpa using hnamed, hsequenced,
        Option.isSome_iff_exists.2 ⟨run, hrun⟩⟩

theorem Recreatable.of_origin {s : StepRecord} (h : Recreatable sha j r) (horigin : s.origin = r.origin) :
    Recreatable sha j s := by
  have haddressed := h.addressed.of_origin horigin
  simp only [StepRecord.origin, Prod.mk.injEq] at horigin
  obtain ⟨-, hrun, -, hkind, hname, hinput, -, -, hsequence⟩ := horigin
  exact ⟨haddressed, by rw [hinput]; exact h.canonical, by rw [hkind, hname]; exact h.named,
    by rw [hsequence]; exact h.sequenced, by rw [hrun]; exact h.run⟩

theorem Recreatable.mono (h : Recreatable sha j r)
    (hruns : ∀ runId, (j.findRun runId).isSome = true → (j'.findRun runId).isSome = true) :
    Recreatable sha j' r :=
  { h with run := hruns _ h.run }

theorem findsRun_of_perform {c : JournalCall β} {b : β} (hj : j.StepsKeyed)
    (h : c.perform sha a j = (.ok b, j')) (runId : String) (hrun : (j.findRun runId).isSome = true) :
    (j'.findRun runId).isSome = true := by
  obtain ⟨run, hrun⟩ := Option.isSome_iff_exists.1 hrun
  obtain ⟨run', hrun', -⟩ := runs_follow hj h hrun
  exact Option.isSome_iff_exists.2 ⟨run', hrun'⟩

theorem stepOrigins_of_perform {c : JournalCall β} {b : β} (hj : j.StepsKeyed) (hc : ¬ c.createsStep)
    (h : c.perform sha a j = (.ok b, j')) : ∀ s ∈ j'.steps, ∃ r ∈ j.steps, s.origin = r.origin := by
  intro s hs
  by_cases hhonest : c.Honest
  · have hmem := List.mem_map_of_mem (f := StepRecord.id) hs
    rw [stepIds_of_perform hj hc h] at hmem
    obtain ⟨r, hr, hid⟩ := List.mem_map.1 hmem
    obtain ⟨t, ht, hfollows⟩ := (moves_of_perform hj hhonest h).follows hj r hr
    obtain rfl := (stepsKeyed_of_perform hj h).eq_of_key ht hs (hfollows.id.trans hid)
    exact ⟨r, hr, hfollows.origin⟩
  · cases c with
    | appendEvent =>
        have hsame : j'.steps = j.steps :=
          same_of_perform (p := .steps) hj h (by simp [JournalCall.writes])
        exact ⟨s, hsame ▸ hs, rfl⟩
    | _ => exact absurd trivial hhonest

theorem steps_of_perform {c : JournalCall β} {b : β} (hj : j.StepsKeyed)
    (hsteps : ∀ r ∈ j.steps, Recreatable sha j r) (h : c.perform sha a j = (.ok b, j')) :
    ∀ r ∈ j'.steps, Recreatable sha j' r := by
  have hruns := findsRun_of_perform hj h
  intro s hs
  by_cases hc : c.createsStep
  · cases c with
    | createStep =>
        rcases createStep_recreatable h s hs with hold | hnew
        · exact (hsteps s hold).mono hruns
        · exact hnew.mono hruns
    | _ => exact hc.elim
  · obtain ⟨r, hr, horigin⟩ := stepOrigins_of_perform hj hc h s hs
    exact ((hsteps r hr).of_origin horigin).mono hruns

theorem inTransaction_adds {runId : String} {stepId : Option String} {key : String}
    {payload : PyVal} {now : Timestamp} {receipt : ReceiptRecord}
    (h : recordReceiptInTransaction sha runId stepId key payload now j = (.ok receipt, j'))
    {step : StepRecord} (hstep : step ∈ j.steps) (hid : stepId = some step.id)
    (hrun : runId = step.runId) : ∀ x ∈ j'.receipts, x ∈ j.receipts ∨ Rerecordable j x := by
  obtain ⟨hkey, hreceiptRun, hreceiptStep, ⟨column, hcolumn, htext⟩, ⟨rfl, -⟩ | ⟨rfl, -⟩⟩ :=
    recordReceiptInTransaction_ok h
  · exact fun x hx => .inl hx
  · simp only [recordReceiptInTransaction, Txn.bind_ok, Txn.require_ok] at h
    obtain ⟨_, _, ⟨hnamed, rfl⟩, -⟩ := h
    have hpayload : receipt.payload = column := JsonColumn.eq_of_text htext
    intro x hx
    rcases List.mem_append.1 hx with hx | hx
    · exact .inl hx
    · obtain rfl := List.mem_singleton.1 hx
      refine .inr ⟨?_, ?_, step, hstep, hreceiptStep.trans hid, hrun.symm.trans hreceiptRun.symm⟩
      · rw [hpayload]
        exact canonicalJson_value hcolumn
      · rw [hkey]
        simpa using hnamed

theorem Rerecordable.mono {x : ReceiptRecord} (h : Rerecordable j x) (hstay : j.StepsStay j') :
    Rerecordable j' x := by
  obtain ⟨step, hstep, hid, hrun⟩ := h.step
  obtain ⟨step', hstep', hid', hrun'⟩ := hstay step hstep
  exact ⟨h.canonical, h.keyed, step', hstep', by rw [hid', hid], hrun'.trans hrun⟩

theorem receipts_of_perform {c : JournalCall β} {b : β} (hj : j.StepsKeyed)
    (hreceipts : ∀ x ∈ j.receipts, Rerecordable j x) (h : c.perform sha a j = (.ok b, j')) :
    ∀ x ∈ j'.receipts, Rerecordable j' x := by
  have hstay := stepsStay_of_perform hj h
  suffices hadds : ∀ x ∈ j'.receipts, x ∈ j.receipts ∨ Rerecordable j x by
    intro x hx
    exact ((hadds x hx).elim (hreceipts x) id).mono hstay
  cases c with
  | commitStep stepId workerId output receipt =>
      simp only [JournalCall.perform, commitStep, Txn.atomically_ok, Txn.bind_ok, requireStep_ok,
        Txn.require_ok, Txn.lift_ok] at h
      obtain ⟨row, _, ⟨hrow, rfl⟩, _, _, ⟨-, rfl⟩, _, _, hcheck, receiptId, t, hreceipt, outputJson,
        _, ⟨-, rfl⟩, _, _, ⟨-, rfl⟩, hchange⟩ := h
      obtain ⟨-, rfl⟩ := checkOwnerAndLease_ok hcheck
      simp only [changeStep, Txn.bind_ok, Txn.write_ok, appendEventRow_ok, requireStep_ok] at hchange
      obtain ⟨_, _, rfl, _, _, ⟨column, -, rfl, rfl⟩, -, rfl⟩ := hchange
      cases receipt with
      | none =>
          obtain ⟨-, rfl⟩ := Txn.pure_ok.1 hreceipt
          exact fun x hx => .inl hx
      | some receipt =>
          simp only [commitReceipt, Txn.bind_ok, Txn.getOr_ok, Txn.pure_ok] at hreceipt
          obtain ⟨key, _, ⟨-, rfl⟩, added, _, hadded, -, rfl⟩ := hreceipt
          have hadds := inTransaction_adds hadded (Table.find_mem hrow) rfl rfl
          exact hadds
  | recordReceipt stepId key payload =>
      simp only [JournalCall.perform, Journal.recordReceipt, Txn.atomically_ok, Txn.bind_ok,
        requireStep_ok, Txn.read_ok, Txn.ite_ok, appendEventRow_ok, Txn.pure_ok] at h
      obtain ⟨step, _, ⟨hstep, rfl⟩, existed, _, ⟨-, rfl⟩, record, t, hrecord, h⟩ := h
      have hadds := inTransaction_adds hrecord (Table.find_mem hstep)
        (congrArg some (Table.find_key hstep).symm) rfl
      obtain ⟨-, _, _, ⟨column, -, -, rfl⟩, -, rfl⟩ | ⟨-, -, rfl⟩ := h
      · exact hadds
      · exact hadds
  | _ =>
      have hsame : j'.receipts = j.receipts :=
        same_of_perform (p := .receipts) hj h (by simp [JournalCall.writes])
      exact fun x hx => .inl (hsame ▸ hx)

/-- Every row can be made again from its own fields. -/
structure Frozen (sha : Sha256) (j : Journal) : Prop where
  keyed : j.StepsKeyed
  steps : ∀ r ∈ j.steps, Recreatable sha j r
  receipts : ∀ x ∈ j.receipts, Rerecordable j x

theorem Frozen.perform {c : RecordCall β} {s s' : ArtifactJournal} {b : Except PyError β}
    (h : Frozen sha s.journal) (hcall : c.perform sha a s = (b, s')) : Frozen sha s'.journal := by
  cases b with
  | error e => rwa [RecordCall.perform_atomic hcall]
  | ok b =>
      cases c with
      | journal call =>
          obtain ⟨j', hperform, rfl⟩ := ArtifactJournal.onJournal_ok.1 hcall
          exact ⟨stepsKeyed_of_perform h.keyed hperform, steps_of_perform h.keyed h.steps hperform,
            receipts_of_perform h.keyed h.receipts hperform⟩
      | recordArtifact =>
          obtain ⟨-, -, -, column, rfl⟩ := ArtifactJournal.recordArtifact_ok hcall
          exact ⟨h.keyed, fun r hr => (h.steps r hr).mono fun _ hrun => hrun,
            fun x hx => (h.receipts x hx).mono (.of_eq rfl)⟩

theorem frozen_reached {s : ArtifactJournal} (h : RecordReach sha (fun _ _ => True) s) :
    Frozen sha s.journal := by
  induction h with
  | start => exact ⟨List.nodup_nil, by simp [empty], by simp [empty]⟩
  | calls _ _ hcall ih => exact ih.perform hcall

theorem createStep_id {runId kind name : String} {input : PyVal} {column : JsonColumn}
    {safety : String} {sequence : Option ℤ} {a' : Ambient} {t t' : Journal} {s : StepRecord}
    (hinput : canonicalJson input = .ok column)
    (h : Journal.createStep sha a runId kind name input safety sequence j = (.ok r, j'))
    (h' : Journal.createStep sha a' runId kind name column.value safety sequence t = (.ok s, t')) :
    s.id = r.id := by
  obtain ⟨_, inputJson, inputHash, safetyValue, key, stepId, -, -, hhash, hsafety, hkey, hid,
    hcase⟩ := createStep_ok h
  obtain ⟨_, inputJson', inputHash', safetyValue', key', stepId', -, -, hhash', hsafety', hkey',
    hid', hcase'⟩ := createStep_ok h'
  obtain ⟨column', hcolumn', rfl⟩ := sha256Hex_eq_ok hhash
  rw [hinput] at hcolumn'
  obtain rfl := Except.ok.inj hcolumn'
  rw [sha256Hex_value (canonicalJson_value hinput)] at hhash'
  obtain rfl := Except.ok.inj hhash'
  rw [hsafety] at hsafety'
  obtain rfl := Except.ok.inj hsafety'
  rw [hkey] at hkey'
  obtain rfl := Except.ok.inj hkey'
  rw [hid] at hid'
  obtain rfl := Except.ok.inj hid'
  have hr : r.id = stepId := by
    rcases hcase with ⟨-, hfound⟩ | ⟨-, _, rfl, -⟩
    · exact Table.find_key hfound
    · rfl
  have hs : s.id = stepId := by
    rcases hcase' with ⟨-, hfound⟩ | ⟨-, _, rfl, -⟩
    · exact Table.find_key hfound
    · rfl
  exact hs.trans hr.symm

end Journal

end Polaris
