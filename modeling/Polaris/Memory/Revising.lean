import Polaris.Journal.Addresses
import Polaris.Memory.Tools

namespace Polaris
open PyJson PyVal SortedDict Program Relation

namespace ToolArguments
variable {arguments : ToolArguments} {name : String}

theorem string_ok {s : NonBlank} (h : arguments.string name = .ok s) :
    lookup name arguments = some (.str s) := by
  unfold string at h
  split at h
  next text htext =>
    split at h
    · obtain rfl := Except.ok.inj h
      exact htext
    · simp at h
  · simp at h

theorem optionalString_ok {value : Option String} (h : arguments.optionalString name = .ok value) :
    (lookup name arguments).elim (value = none) (· = optStr value) := by
  unfold optionalString at h
  split at h
  next hnone =>
    obtain rfl := Except.ok.inj h
    simp [hnone]
  next hnull =>
    obtain rfl := Except.ok.inj h
    simp [hnull, optStr]
  next text htext =>
    obtain rfl := Except.ok.inj h
    simp [htext, optStr]
  · simp at h

theorem integer_ok {n : ℤ} (h : arguments.integer name = .ok n) :
    lookup name arguments = some (.int n) := by
  unfold integer at h
  split at h
  next n' hn =>
    obtain rfl := Except.ok.inj h
    exact hn
  · simp at h

end ToolArguments

theorem MemoryKind.ofValue_ok {text : String} {kind : MemoryKind} (h : ofValue text = .ok kind) :
    kind.value = text := by
  unfold ofValue at h
  split at h
  next found hfound =>
    obtain rfl := Except.ok.inj h
    simpa using List.find?_some hfound
  · simp at h

theorem TrustLevel.ofValue_ok {text : String} {level : TrustLevel} (h : ofValue text = .ok level) :
    level.value = text := by
  unfold ofValue at h
  split at h
  next found hfound =>
    obtain rfl := Except.ok.inj h
    simpa using List.find?_some hfound
  · simp at h

namespace MemoryTools

section
variable {tools : MemoryTools} {arguments : ToolArguments}

/-- The fields other than the content are as supplied, and where they are omitted as `kept` has
them. -/
structure FieldsMatch (tools : MemoryTools) (arguments : ToolArguments) (kept stored : MemoryEntry) :
    Prop where
  kind : (lookup "kind" arguments).elim (stored.kind = kept.kind)
    (tools.py.strOf · = stored.kind.value)
  trustLevel : (lookup "trust_level" arguments).elim (stored.trustLevel = kept.trustLevel)
    (tools.py.strOf · = stored.trustLevel.value)
  runId : (lookup "provenance_run_id" arguments).elim (stored.provenance.runId = kept.provenance.runId)
    (· = optStr stored.provenance.runId)
  sessionId : (lookup "provenance_session_id" arguments).elim
    (stored.provenance.sessionId = kept.provenance.sessionId)
    (· = optStr stored.provenance.sessionId)
  messageId : (lookup "provenance_message_id" arguments).elim
    (stored.provenance.messageId = kept.provenance.messageId)
    (· = optStr stored.provenance.messageId)

/-- The revision changed exactly what was supplied. -/
structure Revised (tools : MemoryTools) (arguments : ToolArguments) (previous stored : MemoryEntry) :
    Prop where
  content : lookup "content" arguments = some (.str stored.content)
  fields : tools.FieldsMatch arguments previous stored

/-- What is omitted was at its default. -/
structure OmitsDefaults (arguments : ToolArguments) (previous : MemoryEntry) : Prop where
  kind : lookup "kind" arguments = none → previous.kind = .fact
  trustLevel : lookup "trust_level" arguments = none → previous.trustLevel = .userAsserted
  runId : lookup "provenance_run_id" arguments = none → previous.provenance.runId = none
  sessionId : lookup "provenance_session_id" arguments = none → previous.provenance.sessionId = none
  messageId : lookup "provenance_message_id" arguments = none → previous.provenance.messageId = none

theorem writeFromArguments_ok {write : MemoryWrite}
    (h : tools.writeFromArguments arguments = .ok write) :
    lookup "content" arguments = some (.str write.content) ∧
      (lookup "kind" arguments).elim (write.kind = .fact) (tools.py.strOf · = write.kind.value) ∧
      (lookup "trust_level" arguments).elim (write.trustLevel = .userAsserted)
        (tools.py.strOf · = write.trustLevel.value) ∧
      (lookup "provenance_run_id" arguments).elim (write.provenance.runId = none)
        (· = optStr write.provenance.runId) ∧
      (lookup "provenance_session_id" arguments).elim (write.provenance.sessionId = none)
        (· = optStr write.provenance.sessionId) ∧
      (lookup "provenance_message_id" arguments).elim (write.provenance.messageId = none)
        (· = optStr write.provenance.messageId) ∧ write.entryId = none := by
  simp only [writeFromArguments, bind_eq_ok, pure_eq_ok] at h
  obtain ⟨content, hcontent, kind, hkind, level, hlevel, runId, hrun, sessionId, hsession, messageId,
    hmessage, rfl⟩ := h
  refine ⟨ToolArguments.string_ok hcontent, ?_, ?_, ToolArguments.optionalString_ok hrun,
    ToolArguments.optionalString_ok hsession, ToolArguments.optionalString_ok hmessage, rfl⟩
  · have hvalue := MemoryKind.ofValue_ok hkind
    cases hgiven : lookup "kind" arguments with
    | none =>
        rw [hgiven] at hvalue
        cases kind <;> simp_all [MemoryKind.value]
    | some v => simpa [hgiven] using hvalue.symm
  · have hvalue := TrustLevel.ofValue_ok hlevel
    cases hgiven : lookup "trust_level" arguments with
    | none =>
        rw [hgiven] at hvalue
        cases level <;> simp_all [TrustLevel.value]
    | some v => simpa [hgiven] using hvalue.symm

theorem elim_iff {o : Option PyVal} {p q : Prop} {f : PyVal → Prop} {d : Prop}
    (hd : o.elim d f) (hpq : d → (q ↔ p)) : o.elim q f ↔ (o = none → p) := by
  cases o with
  | none => simpa using hpq hd
  | some v => simpa using hd

/-- What is written keeps the omitted fields exactly where these were at their defaults. -/
theorem written_revised_iff {write : MemoryWrite} {previous stored : MemoryEntry}
    (h : tools.writeFromArguments arguments = .ok write) (hcontent : stored.content = write.content)
    (hkind : stored.kind = write.kind) (hlevel : stored.trustLevel = write.trustLevel)
    (hprovenance : stored.provenance = write.provenance) :
    tools.Revised arguments previous stored ↔ OmitsDefaults arguments previous := by
  obtain ⟨hc, hk, hl, hr, hs, hm, -⟩ := writeFromArguments_ok h
  rw [← hcontent] at hc
  rw [← hkind] at hk
  rw [← hlevel] at hl
  rw [← hprovenance] at hr hs hm
  have heq : ∀ {β : Type} {a b d : β}, a = d → (a = b ↔ b = d) := by
    rintro β a b d rfl
    exact eq_comm
  constructor
  · rintro ⟨-, hkind, hlevel, hrun, hsession, hmessage⟩
    exact ⟨(elim_iff hk heq).1 hkind, (elim_iff hl heq).1 hlevel, (elim_iff hr heq).1 hrun,
      (elim_iff hs heq).1 hsession, (elim_iff hm heq).1 hmessage⟩
  · rintro ⟨hkind, hlevel, hrun, hsession, hmessage⟩
    exact ⟨hc, (elim_iff hk heq).2 hkind, (elim_iff hl heq).2 hlevel, (elim_iff hr heq).2 hrun,
      (elim_iff hs heq).2 hsession, (elim_iff hm heq).2 hmessage⟩

/-! What a run of a tool reports. -/

def Reached (sha : Sha256) (t : MemoryTables) : Prop := ReflTransGen (Others sha) .empty t

theorem Reached.consistent {sha : Sha256} {t : MemoryTables} (h : Reached sha t) :
    t.Consistent ∧ MemoryWriter.Intact sha t := by
  induction h with
  | refl => exact ⟨MemoryTables.consistent_empty, fun _ he => nomatch he⟩
  | tail _ hother ih =>
      obtain ⟨i, rfl, rfl⟩ := hother
      exact ⟨MemoryTables.Written.consistent (MemoryTables.after_written i _) ih.1,
        (MemoryWriter.after_stores i _).intact ih.2⟩

variable {t t' : MemoryTables} {v : PyVal} {entryId : String} {entry stored : MemoryEntry}

/-- The report is about an entry that is there with the hash of the supplied content. -/
structure Found (tools : MemoryTools) (arguments : ToolArguments) (entryId : String)
    (t' : MemoryTables) (v : PyVal) (entry : MemoryEntry) : Prop where
  reported : v = entryResult entry "already_applied"
  mem : entry ∈ t'.entries
  key : entry.id = entryId
  hash : ∃ content, arguments.string "content" = .ok content ∧
    entry.contentHash = tools.writer.backend.contentHash content

/-- The report is about an entry that the tool has just written. -/
structure Applied (tools : MemoryTools) (arguments : ToolArguments) (entryId : String)
    (t' : MemoryTables) (v : PyVal) (entry : MemoryEntry) : Prop where
  reported : v = entryResult entry "applied"
  mem : entry ∈ t'.entries
  key : entry.id = entryId
  value : ∃ write, tools.writeFromArguments arguments = .ok write ∧ entry.content = write.content ∧
    entry.kind = write.kind ∧ entry.trustLevel = write.trustLevel ∧
    entry.provenance = write.provenance

theorem writeFromArguments_content {write : MemoryWrite}
    (h : tools.writeFromArguments arguments = .ok write) :
    arguments.string "content" = .ok write.content := by
  simp only [writeFromArguments, bind_eq_ok, pure_eq_ok] at h
  obtain ⟨content, hcontent, kind, hkind, level, hlevel, runId, hrun, sessionId, hsession, messageId,
    hmessage, rfl⟩ := h
  exact hcontent

theorem getInTransaction_readOnly {scope : MemoryScope} {includeTombstone : Bool} :
    Txn.ReadOnly (MemoryBackend.getInTransaction scope entryId includeTombstone) :=
  (Txn.read_readOnly _).bind fun _ => Txn.getOr_readOnly _ _

theorem getInTransaction_error {scope : MemoryScope} {s s' : MemoryStore} {exc : PyError}
    (h : MemoryBackend.getInTransaction scope entryId true s = (.error exc, s')) :
    ∀ e ∈ s.entries, e.id = entryId → e.scope ≠ scope := by
  intro e he hkey hscope
  have hsome : (s.entries.find? fun e => e.id = entryId && e.scope = scope).isSome :=
    List.find?_isSome.2 ⟨e, he, by simp [hkey, hscope]⟩
  obtain ⟨found, hfound⟩ := Option.isSome_iff_exists.1 hsome
  simp [MemoryBackend.getInTransaction, Bind.bind, Txn.bind, Txn.read, Txn.getOr, hfound] at h

theorem onStore_readOnly {β : Type} {op : MemoryBackend.Op β} (h : Txn.ReadOnly op) :
    Txn.ReadOnly (MemoryWriter.onStore op) := fun t => by
  simp only [MemoryWriter.onStore, h t.toMemoryStore]

theorem perform_replace {writer : MemoryWriter} {a : Ambient} {scope : MemoryScope}
    {write : MemoryWrite} {expectedRevision : ℤ} {expectedHash : Option String} :
    (StoreCall.replace scope entryId write expectedRevision expectedHash).perform writer a =
      if 0 ≤ expectedRevision then
        writer.replace a scope entryId (.write write) (some expectedRevision.toNat) expectedHash
      else StoreCall.refuse scope entryId expectedRevision := rfl

/-- A call of the tool is one of those that any store makes. -/
theorem perform_reaches {writer : MemoryWriter} {a : Ambient} {β : Type} {e : StoreCall β}
    {r : Except PyError β} (h : e.perform writer a t = (r, t')) :
    ReflTransGen (Others writer.backend.sha) t t' := by
  cases e with
  | get scope entryId includeTombstone =>
      obtain rfl : t' = t :=
        (congrArg Prod.snd h).symm.trans (onStore_readOnly getInTransaction_readOnly t)
      exact .refl
  | replace scope entryId write expectedRevision expectedHash =>
      rw [perform_replace] at h
      by_cases hvalid : 0 ≤ expectedRevision
      · rw [if_pos hvalid] at h
        exact .single ⟨⟨writer, a, .replace scope entryId (.write write)
          (some expectedRevision.toNat) expectedHash⟩, rfl, (congrArg Prod.snd h).symm⟩
      · rw [if_neg hvalid] at h
        have hread : Txn.ReadOnly (StoreCall.refuse scope entryId expectedRevision) :=
          (onStore_readOnly getInTransaction_readOnly).bind fun _ =>
            (Txn.require_readOnly _ _).bind fun _ => Txn.fail_readOnly _
        obtain rfl : t' = t := (congrArg Prod.snd h).symm.trans (hread t)
        exact .refl

theorem runs_reaches {α : Type} {p : Program StoreCall PyError α} {r : Except PyError α}
    (h : Runs tools.system p t r t') : ReflTransGen (Others tools.writer.backend.sha) t t' := by
  induction h with
  | done => exact .refl
  | call hexec _ ih =>
      obtain ⟨u, a, hothers, hperform⟩ := hexec
      exact (hothers.trans (perform_reaches hperform)).trans ih

theorem get_runs {includeTombstone : Bool} {r : Except PyError MemoryEntry}
    (h : Runs tools.system (perform (.get tools.scope entryId includeTombstone)) t r t') :
    MemoryBackend.getInTransaction tools.scope entryId includeTombstone t'.toMemoryStore =
        (r, t'.toMemoryStore) := by
  obtain ⟨u, a, -, hget⟩ := runs_perform.1 h
  obtain ⟨rfl, rfl⟩ := Prod.mk.inj hget
  have hsame := @getInTransaction_readOnly entryId tools.scope includeTombstone u.toMemoryStore
  simp only [hsame]
  exact Prod.ext rfl hsame

theorem replace_runs {write : MemoryWrite} {expectedRevision : ℤ} {expectedHash : Option String}
    (h : Runs tools.system (perform (.replace tools.scope entryId write expectedRevision expectedHash))
      t (.ok entry) t') : entry ∈ t'.entries ∧ entry.id = entryId ∧ entry.content = write.content ∧
        entry.kind = write.kind ∧ entry.trustLevel = write.trustLevel ∧
          entry.provenance = write.provenance := by
  obtain ⟨u, a, -, hreplace⟩ := runs_perform.1 h
  rw [perform_replace, Txn.ite_ok] at hreplace
  rcases hreplace with ⟨-, hreplace⟩ | ⟨-, hreplace⟩
  · obtain ⟨old, hreplaces, hentries, -⟩ := MemoryWriter.replace_stores hreplace
    obtain ⟨content, hcontent, hvalue⟩ := hreplaces.value
    refine ⟨?_, hreplaces.same.1, ?_⟩
    · rw [hentries, Table.mem_put]
      exact .inl ⟨rfl, old, hreplaces.found, hreplaces.key.1.trans hreplaces.same.1.symm⟩
    · simp only [MemoryBackend.Replacement.normalized] at hvalue
      split at hvalue
      · simp only [Except.ok.injEq, Prod.mk.injEq] at hvalue
        obtain ⟨rfl, hkind, hlevel, hprovenance⟩ := hvalue
        exact ⟨hcontent, hkind.symm, hlevel.symm, hprovenance.symm⟩
      · simp at hvalue
  · simp only [StoreCall.refuse, Txn.bind_ok, Txn.fail_ok] at hreplace
    obtain ⟨_, _, -, _, _, -, hfalse⟩ := hreplace
    exact hfalse.elim

theorem revise_runs (h : Runs tools.system (tools.revise arguments) t (.ok v) t') :
    ∃ entryId : NonBlank, arguments.string "id" = .ok entryId ∧ ∃ entry,
      tools.Found arguments entryId t' v entry ∨ tools.Applied arguments entryId t' v entry := by
  unfold revise at h
  obtain ⟨entryId, hid, h⟩ := runs_ofExcept_bind.1 h
  obtain ⟨write, hwrite, h⟩ := runs_ofExcept_bind.1 h
  have hcontent := writeFromArguments_content hwrite
  refine ⟨entryId, hid, ?_⟩
  rcases runs_bind.1 h with ⟨current, u, hget, h⟩ | ⟨e, he, -⟩
  · obtain ⟨hmem, hkey, -, -⟩ := MemoryBackend.getInTransaction_ok (get_runs hget)
    dsimp only at h
    split at h
    next hsame =>
      obtain ⟨hv, rfl⟩ := runs_done.1 h
      exact ⟨current, .inl ⟨(Except.ok.inj hv).symm, hmem, hkey, _, hcontent, hsame⟩⟩
    next =>
      obtain ⟨expectedRevision, -, h⟩ := runs_ofExcept_bind.1 h
      obtain ⟨expectedHash, -, h⟩ := runs_ofExcept_bind.1 h
      rcases runs_bind.1 h with ⟨result, u', hattempt, h⟩ | ⟨e, he, -⟩
      · obtain ⟨_, hr, hreplace⟩ := runs_attempt.1 hattempt
        obtain rfl := Except.ok.inj hr
        cases result with
        | ok entry =>
            obtain ⟨hv, rfl⟩ := runs_done.1 h
            obtain ⟨hmem, hkey, hvalue⟩ := replace_runs hreplace
            exact ⟨entry, .inr ⟨(Except.ok.inj hv).symm, hmem, hkey, write, hwrite, hvalue⟩⟩
        | error exc =>
            dsimp only at h
            split at h
            · rcases runs_bind.1 h with ⟨again, u'', hagain, h⟩ | ⟨e, he, -⟩
              · obtain ⟨hmem, hkey, -, -⟩ := MemoryBackend.getInTransaction_ok (get_runs hagain)
                split at h
                · exact absurd (runs_done.1 h).1 (by simp)
                next hsame =>
                  obtain ⟨hv, rfl⟩ := runs_done.1 h
                  exact ⟨again, .inl ⟨(Except.ok.inj hv).symm, hmem, hkey, _, hcontent,
                    not_not.1 hsame⟩⟩
              · simp at he
            · exact absurd (runs_done.1 h).1 (by simp)
      · simp at he
  · simp at he

/-- What a reconciliation reports. -/
inductive Reconciled (tools : MemoryTools) (arguments : ToolArguments) (entryId : String)
    (t' : MemoryTables) : PyVal → Prop
  | absent : (∀ e ∈ t'.entries, e.id = entryId → e.scope ≠ tools.scope) →
      Reconciled tools arguments entryId t' (dict [("status", .str "not_applied")])
  | already {entry : MemoryEntry} {v : PyVal} : tools.Found arguments entryId t' v entry →
      Reconciled tools arguments entryId t' v
  | pending {entry : MemoryEntry} : entry ∈ t'.entries → entry.id = entryId →
      lookup "expected_revision" arguments = some (.int entry.revision) →
      Reconciled tools arguments entryId t'
        (dict [("status", .str "not_applied"), ("revision", .int entry.revision)])
  | conflict {revision : ℕ} : Reconciled tools arguments entryId t'
      (dict [("status", .str "conflict"), ("revision", .int revision)])

theorem reconcile_runs (h : Runs tools.system (tools.reconcileRevise arguments) t (.ok v) t') :
    ∃ entryId : NonBlank, arguments.string "id" = .ok entryId ∧
      tools.Reconciled arguments entryId t' v := by
  unfold reconcileRevise at h
  obtain ⟨entryId, hid, h⟩ := runs_ofExcept_bind.1 h
  refine ⟨entryId, hid, ?_⟩
  rcases runs_bind.1 h with ⟨result, u, hattempt, h⟩ | ⟨e, he, -⟩
  · obtain ⟨_, hr, hget⟩ := runs_attempt.1 hattempt
    obtain rfl := Except.ok.inj hr
    have hread := get_runs hget
    cases result with
    | error exc =>
        dsimp only at h
        split at h
        · obtain ⟨hv, rfl⟩ := runs_done.1 h
          obtain rfl := Except.ok.inj hv
          exact .absent (getInTransaction_error hread)
        · exact absurd (runs_done.1 h).1 (by simp)
    | ok current =>
        obtain ⟨hmem, hkey, -, -⟩ := MemoryBackend.getInTransaction_ok hread
        obtain ⟨content, hcontent, h⟩ := runs_ofExcept_bind.1 h
        split at h
        next hsame =>
          obtain ⟨hv, rfl⟩ := runs_done.1 h
          exact .already ⟨(Except.ok.inj hv).symm, hmem, hkey, content, hcontent, hsame.2⟩
        next =>
          obtain ⟨expected, hexpected, h⟩ := runs_ofExcept_bind.1 h
          split at h
          next hrevision =>
            obtain ⟨hv, rfl⟩ := runs_done.1 h
            obtain rfl := Except.ok.inj hv
            refine .pending hmem hkey ?_
            rw [hrevision]
            exact ToolArguments.integer_ok hexpected
          next =>
            obtain ⟨hv, rfl⟩ := runs_done.1 h
            obtain rfl := Except.ok.inj hv
            exact .conflict
  · simp at he

/-! What the reports promise. -/

def status : PyVal → Option PyVal
  | .map _ es => lookup "status" es
  | _ => none

theorem status_entryResult {text : String} : status (entryResult entry text) = some (.str text) := by
  simp [status, entryResult, dict, lookup]

/-- The entry is the one that the caller expected to revise. -/
structure Unchanged (arguments : ToolArguments) (t : MemoryTables) (stored : MemoryEntry) : Prop where
  expected : lookup "expected_revision" arguments = some (.int stored.revision)
  last : ∀ e ∈ t.revisionsOf stored.id, e.revision = stored.revision → e = stored

theorem revision_unique (ht : t.Consistent) (hstored : stored ∈ t.entries) :
    ∀ e ∈ t.revisionsOf stored.id, e.revision = stored.revision → e = stored := by
  have hnodup : ((t.revisionsOf stored.id).map MemoryEntry.revision).Nodup := by
    rw [ht.revisions stored hstored]
    exact List.nodup_range'
  exact fun e he hsame => List.inj_on_of_nodup_map hnodup he
    (List.mem_of_getLast? (ht.current stored hstored)) hsame

theorem Found.revised_iff {previous : MemoryEntry} (hsha : tools.writer.backend.sha.CollisionFree)
    (ht : t.Consistent ∧ MemoryWriter.Intact tools.writer.backend.sha t)
    (hfound : tools.Found arguments entryId t v entry) (hstored : stored ∈ t.entries)
    (hkey : stored.id = entryId) :
    tools.Revised arguments previous stored ↔ tools.FieldsMatch arguments previous stored := by
  obtain rfl := ht.1.keyed.eq_of_key hfound.mem hstored (hfound.key.trans hkey.symm)
  obtain ⟨content, hcontent, hhash⟩ := hfound.hash
  have hsame : content.1 = entry.content := hsha (hhash.symm.trans (ht.2 entry hstored))
  exact ⟨fun h => h.fields, fun h => ⟨hsame ▸ ToolArguments.string_ok hcontent, h⟩⟩

theorem id_of_string {entryId : NonBlank} (hid : lookup "id" arguments = some (.str stored.id))
    (h : arguments.string "id" = .ok entryId) : stored.id = entryId := by
  have hlookup := ToolArguments.string_ok h
  rw [hid] at hlookup
  exact PyVal.str.inj (Option.some.inj hlookup)

/-- What the reports of `memory_revise` and of its reconciliation say of the entry, whatever other
stores do in between. -/
structure ReportsTruly (tools : MemoryTools) (arguments : ToolArguments) (t t' : MemoryTables)
    (v : PyVal) (previous stored : MemoryEntry) : Prop where
  applied : Runs tools.system (tools.revise arguments) t (.ok v) t' →
    status v = some (.str "applied") →
      (tools.Revised arguments previous stored ↔ OmitsDefaults arguments previous)
  alreadyApplied : Runs tools.system (tools.revise arguments) t (.ok v) t' →
    status v = some (.str "already_applied") →
      (tools.Revised arguments previous stored ↔ tools.FieldsMatch arguments previous stored)
  reconciled : Runs tools.system (tools.reconcileRevise arguments) t (.ok v) t' →
    status v = some (.str "already_applied") →
      (tools.Revised arguments previous stored ↔ tools.FieldsMatch arguments previous stored)
  notApplied : Runs tools.system (tools.reconcileRevise arguments) t (.ok v) t' →
    status v = some (.str "not_applied") → Unchanged arguments t' stored

theorem Reached.runs {α : Type} {p : Program StoreCall PyError α}
    {r : Except PyError α} (hreached : Reached tools.writer.backend.sha t)
    (h : Runs tools.system p t r t') : Reached tools.writer.backend.sha t' :=
  hreached.trans (runs_reaches h)

/-- A revision that finds its entry and changes the content. -/
theorem revise_applies {entryId : NonBlank} {write : MemoryWrite} {current : MemoryEntry}
    {expectedRevision : ℤ} {expectedHash : Option String} {a : Ambient}
    (hid : arguments.string "id" = .ok entryId)
    (hwrite : tools.writeFromArguments arguments = .ok write)
    (hcurrent : (MemoryBackend.getInTransaction tools.scope entryId false t.toMemoryStore).1 =
      .ok current)
    (hhash : current.contentHash ≠ tools.writer.backend.contentHash write.content)
    (hrevision : arguments.integer "expected_revision" = .ok expectedRevision)
    (hexpected : arguments.optionalString "expected_hash" = .ok expectedHash)
    (hreplace : (StoreCall.replace tools.scope entryId write expectedRevision expectedHash).perform
      tools.writer a t = (.ok entry, t')) :
    Runs tools.system (tools.revise arguments) t (.ok (entryResult entry "applied")) t' := by
  unfold revise
  refine runs_ofExcept_bind.2 ⟨entryId, hid, runs_ofExcept_bind.2 ⟨write, hwrite, ?_⟩⟩
  have hget : Runs tools.system (perform (.get tools.scope entryId false)) t (.ok current) t := by
    refine runs_perform.2 ⟨t, a, .refl, Prod.ext hcurrent ?_⟩
    exact onStore_readOnly getInTransaction_readOnly t
  refine runs_bind.2 (.inl ⟨current, t, hget, ?_⟩)
  dsimp only
  rw [if_neg hhash]
  refine runs_ofExcept_bind.2 ⟨_, hrevision, runs_ofExcept_bind.2 ⟨_, hexpected, ?_⟩⟩
  refine runs_bind.2 (.inl ⟨.ok entry, t', runs_attempt.2 ⟨_, rfl, ?_⟩, runs_done.2 ⟨rfl, rfl⟩⟩)
  exact runs_perform.2 ⟨t, a, .refl, hreplace⟩

end

/-! A preference that was verified, and a tool call that gives a new content only. -/

namespace Preference

def sha : Sha256 := .ofTable [
  ("likes tea", "50f5f279425da6b804f2885cc042bf9ee88aabfd6c1f13b27cd37e38f9084bb8"),
  ("likes coffee", "f737382be6e75611aa84cb5690997136368c5aaf72e0a487bbb4fae764df34cb")]

def tools : MemoryTools where
  py := ⟨fun _ => "", fun _ => "", fun _ => .error (typeError "int"), fun _ _ => false⟩
  writer := ⟨⟨sha, ⟨⟨fun _ _ => false, fun _ _ text => text⟩, []⟩⟩, false⟩
  scope := ⟨.defaultProfile, .defaultProfile⟩

def clock (t : Timestamp) : Ambient := ⟨t, t, t, "55555555555555555555555555555555"⟩

theorem likesTea_visible : isBlankText "likes tea" = false := by decide

theorem likesCoffee_visible : isBlankText "likes coffee" = false := by decide

def added : MemoryIssued := ⟨tools.writer, clock 1, .append tools.scope
  ⟨⟨"likes tea", likesTea_visible⟩, .preference, .verified, none, ⟨none, none, none⟩⟩⟩

def before : MemoryTables := added.after .empty

def arguments : ToolArguments := [("content", .str "likes coffee"),
  ("id", .str "55555555555555555555555555555555"), ("expected_revision", .int 1)]

def current : MemoryEntry := ⟨"55555555555555555555555555555555", tools.scope, "likes tea", .preference,
  .verified, ⟨none, none, none⟩, 1, 1, 1, sha.hexdigest "likes tea", none, false⟩

def revised : MemoryEntry := ⟨"55555555555555555555555555555555", tools.scope, "likes coffee", .fact,
  .userAsserted, ⟨none, none, none⟩, 1, 2, 2, sha.hexdigest "likes coffee", none, false⟩

def write : MemoryWrite :=
  ⟨⟨"likes coffee", likesCoffee_visible⟩, .fact, .userAsserted, none, ⟨none, none, none⟩⟩

def entryId : NonBlank := ⟨"55555555555555555555555555555555", by decide⟩

def after : MemoryTables := ((StoreCall.replace tools.scope entryId write 1 none).perform tools.writer
  (clock 2) before).2

theorem collisionFree : sha.CollisionFree :=
  Sha256.ofTable_collisionFree (by decide +kernel) (by decide +kernel)

theorem reached : Reached tools.writer.backend.sha before := .single ⟨added, rfl, rfl⟩

theorem evaluated :
    (MemoryBackend.getInTransaction tools.scope entryId false before.toMemoryStore).1 =
        .ok current ∧ current.contentHash ≠ tools.writer.backend.contentHash write.content ∧
      ((StoreCall.replace tools.scope entryId write 1 none).perform tools.writer (clock 2)
        before).1 = .ok revised ∧ revised ∈ after.entries := by
  decide +kernel

theorem runs : Runs tools.system (tools.revise arguments) before
    (.ok (entryResult revised "applied")) after := by
  obtain ⟨hcurrent, hhash, hreplace, -⟩ := evaluated
  exact @revise_applies tools arguments _ _ _ entryId write _ _ _ _ rfl rfl hcurrent hhash rfl rfl
    (Prod.ext hreplace rfl)

end Preference

end MemoryTools

end Polaris
