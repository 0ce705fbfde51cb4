import Polaris.Library.PyJsonRoundTrip
import Polaris.Scheduler.Claims
import Polaris.Scheduler.Executors

namespace Polaris
open PyJson

namespace SchedulerStore

/-- The arguments of one claim, and the ids that it draws. -/
structure ClaimCall where
  owner : String
  lease : LeaseTime
  batch : ℤ
  startupCap : Option ℤ
  jitterSeed : Option ℤ
  draws : Draws

namespace ClaimCall

def perform (store : SchedulerStore) (now : Timestamp) (k : ClaimCall) : Op (List JobRun) :=
  claimDueRuns store now k.owner k.lease k.batch k.startupCap k.jitterSeed k.draws

def limit (k : ClaimCall) : ℕ := claimLimit k.batch k.startupCap

end ClaimCall

variable (store : SchedulerStore) (now : Timestamp)

/-- A claim that is cut short inside the occurrences of a job: an occurrence that has no run yet is
left out, when the job is reached with room for so many runs. -/
def CapDrops (t : SchedulerTables) : List Job → ℕ → Prop
  | [], _ => False
  | job :: jobs, room =>
      0 < room ∧ match dueOccurrences store.zones job now with
        | .error _ => False
        | .ok occurrences =>
            (∃ o ∈ occurrences.take (occurrences.length - room), ¬t.Held job.id o) ∨
              CapDrops t jobs (room - (t.unclaimed job.id (lastOf room occurrences)).card)

/-- No occurrence is left out, and the jobs go on to occurrences that are not due. -/
structure Clear (t : SchedulerTables) (k : ClaimCall) : Prop where
  keeps : ¬CapDrops store now t (claimOrder store now k.jitterSeed t) k.limit
  advances : ∀ job ∈ dueJobs now t, ∀ next,
    advanceAfterNow store.zones job now = .ok (some next) → now < next

/-- Claims at one instant, one after the other. -/
inductive ClaimRun (C : SchedulerTables → ClaimCall → Prop) (t₀ : SchedulerTables) :
    SchedulerTables → Prop
  | start : ClaimRun C t₀ t₀
  | claims {t t' : SchedulerTables} {k : ClaimCall} {runs : List JobRun} :
      ClaimRun C t₀ t → C t k → Drawn k.draws.runId t → k.perform store now t = (.ok runs, t') →
      ClaimRun C t₀ t'

/-- The number of the occurrences that are due for a job. -/
def dueCount (job : Job) : ℕ := (dueOccurrences store.zones job now).toOption.elim 0 List.length

def occurrenceCount (t : SchedulerTables) : ℕ := ((dueJobs now t).map (dueCount store now)).sum

/-- A claim of which the limit is above the number of all that is due. -/
inductive Unbounded (t t' : SchedulerTables) : Prop
  | claims {k : ClaimCall} {runs : List JobRun} : occurrenceCount store now t < k.limit →
      Drawn k.draws.runId t → k.perform store now t = (.ok runs, t') → Unbounded t t'

/-- The occurrences that have got their runs between two states. -/
def claimedBetween (t t' : SchedulerTables) : Set (String × Timestamp) :=
  {p | t'.Held p.1 p.2 ∧ ¬t.Held p.1 p.2}

/-- Claims with caps, until no job is due, claim what one claim without a cap does. -/
def OnlyDefers (C : SchedulerTables → ClaimCall → Prop) (t₀ : SchedulerTables) : Prop :=
  ∀ t tᵤ, ClaimRun store now C t₀ t → dueJobs now t = [] → Unbounded store now t₀ tᵤ →
    claimedBetween t₀ t = claimedBetween t₀ tᵤ

variable {store now} {t t' t₀ : SchedulerTables} {c : Claim}

/-- The policy selects the occurrence for the job. -/
def Selects (store : SchedulerStore) (now : Timestamp) (job : Job) (o : Timestamp) : Prop :=
  ∃ occurrences, dueOccurrences store.zones job now = .ok occurrences ∧ o ∈ occurrences

theorem dueCount_ok {job : Job} {occurrences : List Timestamp}
    (h : dueOccurrences store.zones job now = .ok occurrences) :
    dueCount store now job = occurrences.length := by
  simp [dueCount, h, Except.toOption]

/-- What a claim does with the jobs that it reaches, when it leaves nothing out. -/
structure Reached (store : SchedulerStore) (c : Claim) (jobs : List Job)
    (t t' : SchedulerTables) : Prop where
  held : ∀ jobId o, t'.Held jobId o ↔
    t.Held jobId o ∨ ∃ job ∈ jobs, job.id = jobId ∧ Selects store c.now job o
  kept : ∀ row ∈ t.jobs, row.id ∉ jobs.map Job.id → row ∈ t'.jobs
  rows : ∀ row ∈ t'.jobs, row ∈ t.jobs ∧ row.id ∉ jobs.map Job.id ∨
    ∃ job ∈ jobs, ∃ nextRun, row.id = job.id ∧ advanceAfterNow store.zones job c.now = .ok nextRun ∧
      row.nextRunAt = nextRun
  ids : t'.jobs.map Job.id = t.jobs.map Job.id

theorem Reached.refl (store : SchedulerStore) (c : Claim) (t : SchedulerTables) :
    Reached store c [] t t where
  held := by simp
  kept _ hrow _ := hrow
  rows _ hrow := .inl ⟨hrow, by simp⟩
  ids := rfl

theorem capDrops_congr {jobs : List Job} {room : ℕ}
    (h : ∀ job ∈ jobs, ∀ o, t'.Held job.id o ↔ t.Held job.id o) :
    CapDrops store now t' jobs room ↔ CapDrops store now t jobs room := by
  induction jobs generalizing room with
  | nil => exact .rfl
  | cons job jobs ih =>
      have hjob := h job List.mem_cons_self
      have hrest := fun room => @ih room fun other hother => h other (List.mem_cons_of_mem _ hother)
      unfold CapDrops
      cases dueOccurrences store.zones job now with
      | error e => exact .rfl
      | ok occurrences => simp only [hjob, SchedulerTables.unclaimed_congr hjob, hrest]

theorem claimJobs_reached {jobs : List Job} {ids ids' : List String} (hdrawn : Drawn c.runId t)
    (hids : (jobs.map Job.id).Nodup) (hkeeps : ¬CapDrops store c.now t jobs (c.limit - ids.length))
    (h : claimJobs store c jobs ids t = (.ok ids', t')) :
    ∃ done rest, jobs = done ++ rest ∧ Reached store c done t t' ∧
      (rest = [] ∨ c.limit ≤ ids'.length) ∧
      ids'.length ≤ ids.length + (done.map (dueCount store c.now)).sum := by
  induction jobs generalizing t ids with
  | nil =>
      obtain ⟨rfl, rfl⟩ := Txn.pure_ok.1 h
      exact ⟨[], [], rfl, .refl _ _ _, .inl rfl, by simp⟩
  | cons job jobs ih =>
      rw [claimJobs] at h
      split at h
      · rename_i hfull
        obtain ⟨rfl, rfl⟩ := Txn.pure_ok.1 h
        exact ⟨[], job :: jobs, rfl, .refl _ _ _, .inr hfull, by simp⟩
      · rename_i hroom
        obtain ⟨more, t₁, hjob, h⟩ := Txn.bind_ok.1 h
        obtain ⟨occurrences, nextRun, hoccurrences, hnext, hdrawn₁, hheld, hjobs, hlength⟩ :=
          claimJob_spec hdrawn hjob
        rw [List.map_cons, List.nodup_cons] at hids
        simp only [CapDrops, hoccurrences, not_and, not_or, not_exists] at hkeeps
        obtain ⟨hall, hkeeps⟩ := hkeeps (by omega)
        have hselected : ∀ o, t₁.Held job.id o ↔ t.Held job.id o ∨ o ∈ occurrences := fun o => by
          rw [hheld]
          refine or_congr_right' fun hnot => ?_
          simp only [true_and, lastOf]
          refine ⟨List.mem_of_mem_drop, fun hmem => ?_⟩
          rw [← List.take_append_drop (occurrences.length - (c.limit - ids.length)) occurrences,
            List.mem_append] at hmem
          rcases hmem with hmem | hmem
          · exact absurd hnot (hall o hmem)
          · exact hmem
        have hothers : ∀ other ∈ jobs, ∀ o, t₁.Held other.id o ↔ t.Held other.id o := by
          intro other hother o
          have hne : other.id ≠ job.id := fun hsame =>
            hids.1 (hsame ▸ List.mem_map_of_mem hother)
          simp [hheld, hne]
        have hkeeps₁ : ¬CapDrops store c.now t₁ jobs (c.limit - more.length) := by
          rwa [capDrops_congr hothers, hlength, ← Nat.sub_sub]
        obtain ⟨done, rest, rfl, hreached, hend, hcount⟩ := ih hdrawn₁ hids.2 hkeeps₁ h
        refine ⟨job :: done, rest, rfl, ⟨fun jobId o => ?_, fun row hrow hnot => ?_,
          fun row hrow => ?_, ?_⟩, hend, ?_⟩
        · rw [hreached.held, List.exists_mem_cons_iff]
          by_cases hsame : jobId = job.id
          · subst hsame
            simp only [hselected, Selects, hoccurrences, Except.ok.injEq, exists_eq_left', true_and,
              or_assoc]
          · have hne : job.id ≠ jobId := Ne.symm hsame
            simp [hheld, hsame, hne]
        · rw [List.map_cons, List.mem_cons, not_or] at hnot
          refine hreached.kept row ?_ hnot.2
          rw [hjobs, Table.updateWhere, List.mem_map]
          exact ⟨row, hrow, by simp [hnot.1]⟩
        · rcases hreached.rows row hrow with ⟨hrow₁, hnot⟩ | ⟨other, hother, hmoved⟩
          · rw [hjobs, Table.updateWhere, List.mem_map] at hrow₁
            obtain ⟨before, hbefore, hrow₁⟩ := hrow₁
            by_cases hsame : before.id = job.id
            · simp only [hsame, decide_true, if_true] at hrow₁
              subst hrow₁
              exact .inr ⟨job, List.mem_cons_self, nextRun, hsame, hnext, rfl⟩
            · simp only [hsame, decide_false, Bool.false_eq_true, if_false] at hrow₁
              subst hrow₁
              exact .inl ⟨hbefore, by simp [hsame, hnot]⟩
          · exact .inr ⟨other, List.mem_cons_of_mem _ hother, hmoved⟩
        · rw [hreached.ids, hjobs, Table.updateWhere, List.map_map]
          refine List.map_congr_left fun before _ => ?_
          simp only [Function.comp_apply]
          split <;> rfl
        · have hfew := t.card_unclaimed_le job.id (lastOf (c.limit - ids.length) occurrences)
          have hlast : (lastOf (c.limit - ids.length) occurrences).length ≤ occurrences.length := by
            rw [lastOf, List.length_drop]
            omega
          rw [List.map_cons, List.sum_cons, dueCount_ok hoccurrences]
          omega

/-- A limit above the number of all that is due leaves nothing out. -/
theorem not_capDrops {jobs : List Job} {room : ℕ}
    (h : (jobs.map (dueCount store now)).sum ≤ room) :
    ¬CapDrops store now t jobs room := by
  induction jobs generalizing room with
  | nil => simp [CapDrops]
  | cons job jobs ih =>
      rintro ⟨-, hdrops⟩
      cases hoccurrences : dueOccurrences store.zones job now with
      | error e => simp [hoccurrences] at hdrops
      | ok occurrences =>
          simp only [hoccurrences] at hdrops
          rw [List.map_cons, List.sum_cons, dueCount_ok hoccurrences] at h
          have hall : occurrences.length - room = 0 := by omega
          rcases hdrops with ⟨o, ho, -⟩ | hdrops
          · simp [hall] at ho
          · have hfew := t.card_unclaimed_le job.id (lastOf room occurrences)
            have hlast : (lastOf room occurrences).length ≤ occurrences.length := by
              rw [lastOf, List.length_drop]
              omega
            exact ih (by omega) hdrops

/-- The claims so far: what they have claimed was selected at the start, and a job that was due then
is as it was or has all its occurrences. -/
structure Deferred (store : SchedulerStore) (now : Timestamp) (t₀ t : SchedulerTables) : Prop where
  keyed : JobsKeyed t
  held : ∀ jobId o, t.Held jobId o → t₀.Held jobId o ∨
    ∃ job ∈ dueJobs now t₀, job.id = jobId ∧ Selects store now job o
  kept : ∀ jobId o, t₀.Held jobId o → t.Held jobId o
  due : ∀ job ∈ dueJobs now t, job ∈ dueJobs now t₀
  done : ∀ job ∈ dueJobs now t₀, job ∈ t.jobs ∨ ∀ o, Selects store now job o → t.Held job.id o

theorem Deferred.reached (h : Deferred store now t₀ t) {owner : String} {leaseDelta : ℤ} {limit : ℕ}
    {runId : String → Timestamp → String} {done : List Job}
    (hdue : ∀ job ∈ done, job ∈ dueJobs now t)
    (hadvances : ∀ job ∈ dueJobs now t, ∀ next,
      advanceAfterNow store.zones job now = .ok (some next) → now < next)
    (hreached : Reached store ⟨now, owner, leaseDelta, limit, runId⟩ done t t') :
    Deferred store now t₀ t' where
  keyed := by
    rw [JobsKeyed, Table.Keyed, hreached.ids]
    exact h.keyed
  held jobId o ho := by
    rcases (hreached.held jobId o).1 ho with ho | ⟨job, hjob, hid, hselects⟩
    · exact h.held jobId o ho
    · exact .inr ⟨job, h.due job (hdue job hjob), hid, hselects⟩
  kept jobId o ho := (hreached.held jobId o).2 (.inl (h.kept jobId o ho))
  due job hjob := by
    obtain ⟨hrow, hisDue⟩ := mem_dueJobs.1 hjob
    rcases hreached.rows job hrow with ⟨hrow, -⟩ | ⟨other, hother, nextRun, -, hnext, hmoved⟩
    · exact h.due job (mem_dueJobs.2 ⟨hrow, hisDue⟩)
    · simp only [isDue, hmoved, Bool.and_eq_true, Option.any_eq_true, decide_eq_true_eq] at hisDue
      obtain ⟨-, next, rfl, hle⟩ := hisDue
      exact absurd (hadvances other (hdue other hother) next hnext) (Nat.not_lt.2 hle)
  done job hjob := by
    rcases h.done job hjob with hrow | hdone
    · by_cases hreach : job.id ∈ done.map Job.id
      · obtain ⟨other, hother, hsame⟩ := List.mem_map.1 hreach
        obtain rfl := Table.Keyed.eq_of_key h.keyed (mem_dueJobs.1 (hdue other hother)).1 hrow hsame
        exact .inr fun o ho => (hreached.held _ o).2 (.inr ⟨other, hother, rfl, ho⟩)
      · exact .inl (hreached.kept job hrow hreach)
    · exact .inr fun o ho => (hreached.held _ o).2 (.inl (hdone o ho))

theorem Deferred.run (hkeyed : JobsKeyed t₀) (h : ClaimRun store now (Clear store now) t₀ t) :
    Deferred store now t₀ t := by
  induction h with
  | start =>
      exact ⟨hkeyed, fun _ _ ho => .inl ho, fun _ _ ho => ho, fun _ hjob => hjob,
        fun _ hjob => .inl (mem_dueJobs.1 hjob).1⟩
  | @claims t t' k runs _ hclear hdrawn hperform ih =>
      obtain ⟨leaseDelta, ids, hclaim, -⟩ := claimDueRuns_ok hperform
      have hperm := @claimOrder_perm store t now k.jitterSeed
      obtain ⟨done, rest, horder, hreached, -⟩ := claimJobs_reached hdrawn
        (((hperm.map Job.id).nodup_iff).2 (dueJobs_nodup ih.keyed)) hclear.keeps hclaim
      refine ih.reached (fun job hjob => ?_) hclear.advances hreached
      exact hperm.mem_iff.1 (by rw [horder]; exact List.mem_append_left _ hjob)

/-- A claim without a cap goes through all that is due. -/
theorem Unbounded.reached {tᵤ : SchedulerTables} (hkeyed : JobsKeyed t₀)
    (h : Unbounded store now t₀ tᵤ) (jobId : String) (o : Timestamp) :
    tᵤ.Held jobId o ↔ t₀.Held jobId o ∨
      ∃ job ∈ dueJobs now t₀, job.id = jobId ∧ Selects store now job o := by
  obtain ⟨hlimit, hdrawn, hperform⟩ := h
  rename_i k runs
  obtain ⟨leaseDelta, ids, hclaim, -⟩ := claimDueRuns_ok hperform
  have hperm := @claimOrder_perm store t₀ now k.jitterSeed
  have hcount : ((claimOrder store now k.jitterSeed t₀).map (dueCount store now)).sum < k.limit := by
    rwa [(hperm.map _).sum_eq]
  obtain ⟨done, rest, horder, hreached, hend, hfew⟩ := claimJobs_reached hdrawn
    (((hperm.map Job.id).nodup_iff).2 (dueJobs_nodup hkeyed)) (not_capDrops hcount.le) hclaim
  have hall : rest = [] := by
    rcases hend with hrest | hfull
    · exact hrest
    · rw [horder, List.map_append, List.sum_append] at hcount
      simp only [List.length_nil, Nat.zero_add] at hfew
      change claimLimit k.batch k.startupCap ≤ ids.length at hfull
      unfold ClaimCall.limit at hcount
      omega
  rw [hall, List.append_nil] at horder
  simp only [hreached.held, ← horder, hperm.mem_iff]

theorem caps_only_defer (hkeyed : JobsKeyed t₀) : OnlyDefers store now (Clear store now) t₀ := by
  intro t tᵤ hrun hdone hunbounded
  have hdeferred := Deferred.run hkeyed hrun
  have hsame : ∀ jobId o, t.Held jobId o ↔ tᵤ.Held jobId o := fun jobId o => by
    rw [hunbounded.reached hkeyed]
    constructor
    · exact hdeferred.held jobId o
    · rintro (hheld | ⟨job, hjob, rfl, hselects⟩)
      · exact hdeferred.kept jobId o hheld
      · rcases hdeferred.done job hjob with hrow | hall
        · have hstill : job ∈ dueJobs now t :=
            mem_dueJobs.2 ⟨hrow, (mem_dueJobs.1 hjob).2⟩
          rw [hdone] at hstill
          simp at hstill
        · exact hall o hselects
  ext p
  simp only [claimedBetween, Set.mem_ofPred_eq, hsame]

end SchedulerStore

/-! A job that has missed three occurrences and catches up with all of them. -/

namespace Backlog
open SchedulerStore

def runId (jobId : String) (o : Timestamp) : String :=
  String.ofList (Nat.toDigits 10 o ++ '@' :: jobId.toList)

def draws : Draws := ⟨0, "job", runId⟩

def createOp : SchedulerStore.Op Job :=
  createJob Nightly.store ⟨.interval 1 (some (.aware 1000000)), "UTC"⟩ ⟨"single", [], none⟩
    ⟨"", none, "bounded", 3, 0⟩ (some 0) draws

def missed : SchedulerTables := (createOp ⟨[], []⟩).2

def claim (batch : ℤ) : ClaimCall := ⟨"engine", .timedelta 60, batch, none, none, draws⟩

def claimed (batch : ℤ) : SchedulerTables := ((claim batch).perform Nightly.store 3000000 missed).2

theorem drawn {t : SchedulerTables} (h : t.runs = []) : Drawn runId t where
  injective hid := by
    have hcs := String.ofList_inj.1 hid
    obtain ⟨ho, hjob⟩ := PyJson.digits_of_separator (by decide) hcs
    exact ⟨String.toList_inj.1 hjob, ho⟩
  owned run hrun := by simp [h] at hrun

theorem missed_keyed : JobsKeyed missed := by
  have hkeyed : (missed.jobs.map Job.id).Nodup := by decide +kernel
  exact hkeyed

theorem missed_runs : missed.runs = [] := rfl

theorem count_missed : occurrenceCount Nightly.store 3000000 missed = 3 := by decide +kernel

theorem claim_ok {batch : ℤ}
    (h : ((claim batch).perform Nightly.store 3000000 missed).1.toOption.isSome = true) :
    ∃ runs, (claim batch).perform Nightly.store 3000000 missed = (.ok runs, claimed batch) := by
  obtain ⟨runs, hruns⟩ := Option.isSome_iff_exists.1 h
  refine ⟨runs, Prod.ext ?_ rfl⟩
  cases hresult : ((claim batch).perform Nightly.store 3000000 missed).1 <;>
    simp_all [Except.toOption]

theorem unbounded : Unbounded Nightly.store 3000000 missed (claimed 32) := by
  obtain ⟨runs, hclaim⟩ := @claim_ok 32 (by decide +kernel)
  exact .claims (by rw [count_missed]; decide) (drawn missed_runs) hclaim

theorem not_due {t : SchedulerTables} (h : (dueJobs 3000000 t).length = 0) :
    dueJobs 3000000 t = [] := List.length_eq_zero_iff.1 h

end Backlog

theorem caps_only_defer_claimed : ∃ t tᵤ,
    SchedulerStore.ClaimRun Nightly.store 3000000 (SchedulerStore.Clear Nightly.store 3000000)
        Backlog.missed t ∧ t.Held "job" 1000000 ∧
      SchedulerStore.claimedBetween Backlog.missed t =
        SchedulerStore.claimedBetween Backlog.missed tᵤ := by
  obtain ⟨runs, hclaim⟩ := @Backlog.claim_ok 3 (by decide +kernel)
  have hclear : SchedulerStore.Clear Nightly.store 3000000 Backlog.missed (Backlog.claim 3) := by
    refine ⟨SchedulerStore.not_capDrops ?_, ?_⟩
    · exact Backlog.count_missed.le
    · have hall : (SchedulerStore.dueJobs 3000000 Backlog.missed).all (fun job =>
          ((advanceAfterNow Nightly.store.zones job 3000000).toOption.join.all fun next =>
            3000000 < next)) = true := by decide +kernel
      intro job hjob next hnext
      have hone := List.all_eq_true.1 hall job hjob
      simpa [hnext, Except.toOption] using hone
  have hrun := SchedulerStore.ClaimRun.start.claims hclear (Backlog.drawn Backlog.missed_runs) hclaim
  exact ⟨_, _, hrun, by decide +kernel, SchedulerStore.caps_only_defer Backlog.missed_keyed _ _ hrun
    (Backlog.not_due (by decide +kernel)) Backlog.unbounded⟩

/-- With room for one run, two of the three occurrences are lost. -/
theorem occurrences_dropped : ∃ t₀, SchedulerStore.JobsKeyed t₀ ∧
    ¬SchedulerStore.OnlyDefers Nightly.store 3000000 (fun _ _ => True) t₀ := by
  obtain ⟨runs, hclaim⟩ := @Backlog.claim_ok 1 (by decide +kernel)
  refine ⟨Backlog.missed, Backlog.missed_keyed, fun hdefers => ?_⟩
  have hrun := (SchedulerStore.ClaimRun.start (C := fun _ _ => True)).claims trivial
    (Backlog.drawn Backlog.missed_runs) hclaim
  have hsame := hdefers _ _ hrun (Backlog.not_due (by decide +kernel)) Backlog.unbounded
  have hlost : ("job", 1000000) ∉
      SchedulerStore.claimedBetween Backlog.missed (Backlog.claimed 1) := by
    rintro ⟨hheld, -⟩
    revert hheld
    decide +kernel
  have hfound : ("job", 1000000) ∈
      SchedulerStore.claimedBetween Backlog.missed (Backlog.claimed 32) := by
    refine ⟨?_, ?_⟩
    · decide +kernel
    · decide +kernel
  exact hlost (hsame ▸ hfound)

end Polaris
