import Polaris.Journal.History
import Polaris.Journal.Footprint
import Mathlib.Tactic.Linarith

namespace Polaris
open Journal

namespace Resources

@[simp] theorem get_add (a b : Resources) (X : Resource) : (a.add b).get X = a.get X + b.get X := by
  cases X <;> simp [Resources.add, Resources.get]

@[simp] theorem get_sub (a b : Resources) (X : Resource) : (a.sub b).get X = a.get X - b.get X := by
  cases X <;> simp [Resources.sub, Resources.get]

@[simp] theorem get_zero (X : Resource) : Resources.zero.get X = 0 := by
  cases X <;> simp [Resources.zero, Resources.get]

end Resources

def Reservation.held (runId : String) (X : Resource) (r : Reservation) : ℚ :=
  if r.runId = runId ∧ r.status = .reserved then r.amount.get X else 0

def Reservation.spent (runId : String) (X : Resource) (r : Reservation) : ℚ :=
  if r.runId = runId ∧ r.status = .settled then (r.actual.getD .zero).get X else 0

def Reservation.within (X : Resource) (r : Reservation) : Prop :=
  r.status = .settled → (r.actual.getD .zero).get X ≤ r.amount.get X

def SameLedger (run run' : RunRecord) : Prop :=
  run'.id = run.id ∧ run'.limits = run.limits ∧ run'.reserved = run.reserved ∧
    run'.used = run.used

namespace Journal

inductive LedgerMove (j j' : Journal) : Prop where
  | idle (f : RunRecord → RunRecord) : (∀ run, SameLedger run (f run)) →
      j'.runs = j.runs.map f → j'.reservations = j.reservations → LedgerMove j j'
  | create (run : RunRecord) : j.findRun run.id = none → run.reserved = .zero →
      run.used = .zero → LimitsNonnegative run.limits → j'.runs = j.runs ++ [run] →
      j'.reservations = j.reservations → LedgerMove j j'
  | reserve (a : Ambient) (run : RunRecord) (r : Reservation) : j.findRun run.id = some run →
      (∀ X, run.exceeds r.amount X = false) → j.findReservation r.id = none →
      r.runId = run.id → r.status = .reserved →
      j'.runs = Table.put RunRecord.id (run.reserving a r.amount) j.runs →
      j'.reservations = j.reservations ++ [r] → LedgerMove j j'
  | settle (a : Ambient) (run : RunRecord) (r : Reservation) (actual : Resources) :
      j.findRun run.id = some run → j.findReservation r.id = some r → r.runId = run.id →
      r.status = .reserved →
      j'.runs = Table.put RunRecord.id (run.settled a r.amount actual) j.runs →
      j'.reservations = Table.put Reservation.id (r.settled a actual) j.reservations →
      LedgerMove j j'

structure Accounted (j : Journal) (run : RunRecord) : Prop where
  reserved : ∀ X, run.reserved.get X = Table.total (Reservation.held run.id X) j.reservations
  used : ∀ X, run.used.get X = Table.total (Reservation.spent run.id X) j.reservations
  limited : ∀ X limit, run.limits.limit X = some limit →
    (∀ r ∈ j.reservations, r.runId = run.id → r.within X) →
    run.reserved.get X + run.used.get X ≤ limit

structure LedgerInvariant (j : Journal) : Prop where
  runsKeyed : Table.Keyed RunRecord.id j.runs
  keyed : Table.Keyed Reservation.id j.reservations
  known : ∀ r ∈ j.reservations, ∃ run ∈ j.runs, run.id = r.runId
  accounted : ∀ run ∈ j.runs, j.Accounted run

theorem ledgerInvariant_empty : empty.LedgerInvariant where
  runsKeyed := by simp [Table.Keyed, empty]
  keyed := by simp [Table.Keyed, empty]
  known := by simp [empty]
  accounted := by simp [empty]

variable {sha : Sha256} {a : Ambient} {j j' : Journal}

theorem ledgerMove_of_same (hruns : j'.runs = j.runs) (hres : j'.reservations = j.reservations) :
    LedgerMove j j' :=
  .idle id (fun _ => ⟨rfl, rfl, rfl, rfl⟩) (by simpa using hruns) hres

theorem updateRun_eq_put {run : RunRecord} {f : RunRecord → RunRecord}
    (hk : Table.Keyed RunRecord.id j.runs) (hrun : j.findRun run.id = some run)
    (hid : (f run).id = run.id) :
    (j.updateRun run.id f).runs = Table.put RunRecord.id (f run) j.runs :=
  Table.updateWhere_eq_put hk (Table.find_mem hrun) (by simp) (by simp) hid

theorem ledgerMove_of_createRun {mode : String} {request config : PyJson.PyVal} {limits : Budget}
    {parentRunId externalKey : Option String} {run : RunRecord}
    (h : createRun sha a mode request config limits parentRunId externalKey j = (.ok run, j')) :
    LedgerMove j j' := by
  obtain ⟨hlimits, ⟨rfl, -⟩ | ⟨_, _, column, t, rfl, -, -, hnew, ht, rfl⟩⟩ := createRun_ok h
  · exact ledgerMove_of_same rfl rfl
  · obtain rfl | ⟨k, rfl⟩ := ht <;> exact .create _ hnew rfl rfl hlimits rfl rfl

theorem ledgerMove_of_markRunStatus {runId : String} {target : RunStatus} {run : RunRecord}
    (h : markRunStatus a runId target j = (.ok run, j')) : LedgerMove j j' := by
  obtain ⟨row, -, ⟨-, rfl⟩ | ⟨-, column, rfl⟩⟩ := markRunStatus_ok h
  · exact ledgerMove_of_same rfl rfl
  · refine .idle (fun r => if r.id = runId then r.withStatus a target else r) ?_ ?_ rfl
    · intro r
      by_cases hid : r.id = runId <;> simp [SameLedger, hid]
    · simp [Table.updateWhere]

theorem ledgerMove_of_reserve {runId id : String} {amount : Resources}
    {reservationId : Option String} (hk : Table.Keyed RunRecord.id j.runs)
    (h : reserveBudget a runId amount reservationId j = (.ok id, j')) : LedgerMove j j' := by
  obtain ⟨-, -, ⟨-, rfl⟩ | ⟨hnew, run, column, hrun, hwithin, rfl⟩⟩ := reserveBudget_ok h
  · exact ledgerMove_of_same rfl rfl
  · obtain rfl : run.id = runId := Table.find_key hrun
    exact .reserve a run ⟨id, run.id, amount, none, .reserved, a.now, none⟩ hrun hwithin hnew rfl
      rfl (updateRun_eq_put hk hrun rfl) rfl

theorem ledgerMove_of_settle {runId reservationId : String} {explicit aliases : Actuals}
    {result : RunRecord} (hj : j.LedgerInvariant)
    (h : settleBudget a runId reservationId explicit aliases j = (.ok result, j')) :
    LedgerMove j j' := by
  obtain ⟨-, -, r, hr, hrun, ⟨-, -, rfl⟩ | ⟨hopen, column, rfl⟩⟩ := settleBudget_ok h
  · exact ledgerMove_of_same rfl rfl
  · obtain rfl : r.id = reservationId := Table.find_key hr
    obtain ⟨run, hmem, hid⟩ := hj.known r (Table.find_mem hr)
    have hfind : j.findRun run.id = some run := hj.runsKeyed.find hmem
    obtain rfl : run.id = runId := hid.trans hrun
    refine .settle a run r (Actuals.resolve explicit aliases) hfind hr hrun hopen
      (updateRun_eq_put hj.runsKeyed hfind rfl) ?_
    exact Table.updateWhere_eq_put hj.keyed (Table.find_mem hr) (by simp [hopen])
      (fun s hs => by simp_all) rfl

theorem ledgerMove_of_perform {β : Type} {c : JournalCall β} {b : β} (hj : j.LedgerInvariant)
    (hk : j.StepsKeyed) (h : c.perform sha a j = (.ok b, j')) : LedgerMove j j' := by
  cases c with
  | createRun => exact ledgerMove_of_createRun h
  | markRunStatus => exact ledgerMove_of_markRunStatus h
  | reserveBudget => exact ledgerMove_of_reserve hj.runsKeyed h
  | settleBudget => exact ledgerMove_of_settle hj h
  | _ =>
      have hruns := same_of_perform (p := .runs) hk h (by simp [JournalCall.writes])
      have hres := same_of_perform (p := .reservations) hk h (by simp [JournalCall.writes])
      exact ledgerMove_of_same hruns hres

def Kept (r r' : Reservation) : Prop :=
  r'.id = r.id ∧ r'.runId = r.runId ∧ r'.amount = r.amount ∧ (r.status = .settled → r' = r)

theorem LedgerMove.kept (m : LedgerMove j j') {r : Reservation} (hk : j.LedgerInvariant)
    (hr : r ∈ j.reservations) : ∃ r' ∈ j'.reservations, Kept r r' := by
  cases m with
  | idle _ _ _ hres => exact ⟨r, hres ▸ hr, rfl, rfl, rfl, fun _ => rfl⟩
  | create _ _ _ _ _ _ hres => exact ⟨r, hres ▸ hr, rfl, rfl, rfl, fun _ => rfl⟩
  | reserve _ _ _ _ _ _ _ _ _ hres =>
      exact ⟨r, hres ▸ List.mem_append_left _ hr, rfl, rfl, rfl, fun _ => rfl⟩
  | settle a run s actual _ hs _ hopen _ hres =>
      rw [hres]
      by_cases hid : r.id = s.id
      · obtain rfl := hk.keyed.eq_of_key hr (Table.find_mem hs) hid
        refine ⟨_, Table.mem_put.2 (.inl ⟨rfl, r, hr, rfl⟩), rfl, rfl, rfl, fun h => ?_⟩
        simp [hopen] at h
      · exact ⟨r, Table.mem_put_of_ne hr hid, rfl, rfl, rfl, fun _ => rfl⟩

theorem LedgerMove.within_of_after (m : LedgerMove j j') (hk : j.LedgerInvariant) {id : String}
    {X : Resource} (h : ∀ r ∈ j'.reservations, r.runId = id → r.within X) :
    ∀ r ∈ j.reservations, r.runId = id → r.within X := by
  intro r hr hrun hsettled
  obtain ⟨r', hr', -, hrun', -, hsame⟩ := m.kept hk hr
  obtain rfl := hsame hsettled
  exact h r' hr' hrun hsettled

theorem LedgerMove.runsKeyed (m : LedgerMove j j') (hj : j.LedgerInvariant) :
    Table.Keyed RunRecord.id j'.runs := by
  cases m with
  | idle f hf hruns _ =>
      have hids : (j.runs.map f).map RunRecord.id = j.runs.map RunRecord.id := by
        simp [List.map_map, Function.comp_def, fun run => (hf run).1]
      rw [Table.Keyed, hruns, hids]
      exact hj.runsKeyed
  | create _ hnew _ _ _ hruns _ => exact hruns ▸ hj.runsKeyed.append hnew
  | reserve _ _ _ _ _ _ _ _ hruns _ => exact hruns ▸ hj.runsKeyed.put
  | settle _ _ _ _ _ _ _ _ hruns _ => exact hruns ▸ hj.runsKeyed.put

theorem LedgerMove.keyed (m : LedgerMove j j') (hj : j.LedgerInvariant) :
    Table.Keyed Reservation.id j'.reservations := by
  cases m with
  | idle _ _ _ hres => exact hres ▸ hj.keyed
  | create _ _ _ _ _ _ hres => exact hres ▸ hj.keyed
  | reserve _ _ _ _ _ hnew _ _ _ hres => exact hres ▸ hj.keyed.append hnew
  | settle _ _ _ _ _ _ _ _ _ hres => exact hres ▸ hj.keyed.put

theorem LedgerMove.runIds (m : LedgerMove j j') {run : RunRecord} (hrun : run ∈ j.runs) :
    ∃ run' ∈ j'.runs, run'.id = run.id := by
  cases m with
  | idle f hf hruns _ => exact ⟨f run, hruns ▸ List.mem_map_of_mem hrun, (hf run).1⟩
  | create _ _ _ _ _ hruns _ => exact ⟨run, hruns ▸ List.mem_append_left _ hrun, rfl⟩
  | reserve a row r _ _ _ _ _ hruns _ =>
      rw [hruns]
      by_cases hid : run.id = row.id
      · exact ⟨_, Table.mem_put.2 (.inl ⟨rfl, run, hrun, hid⟩), hid.symm⟩
      · exact ⟨run, Table.mem_put_of_ne hrun hid, rfl⟩
  | settle a row r actual _ _ _ _ hruns _ =>
      rw [hruns]
      by_cases hid : run.id = row.id
      · exact ⟨_, Table.mem_put.2 (.inl ⟨rfl, run, hrun, hid⟩), hid.symm⟩
      · exact ⟨run, Table.mem_put_of_ne hrun hid, rfl⟩

theorem LedgerMove.known (m : LedgerMove j j') (hj : j.LedgerInvariant) :
    ∀ r ∈ j'.reservations, ∃ run ∈ j'.runs, run.id = r.runId := by
  have hold : ∀ r ∈ j.reservations, ∃ run ∈ j'.runs, run.id = r.runId := by
    intro r hr
    obtain ⟨run, hrun, hid⟩ := hj.known r hr
    obtain ⟨run', hrun', hid'⟩ := m.runIds hrun
    exact ⟨run', hrun', hid'.trans hid⟩
  intro r hr
  have hids : ∀ run ∈ j.runs, ∃ run' ∈ j'.runs, run'.id = run.id := fun _ => m.runIds
  cases m with
  | idle _ _ _ hres => exact hold r (hres ▸ hr)
  | create _ _ _ _ _ _ hres => exact hold r (hres ▸ hr)
  | reserve a run s hrun _ _ hs _ hruns hres =>
      rw [hres] at hr
      rcases List.mem_append.1 hr with hr | hr
      · exact hold r hr
      · obtain rfl : r = s := by simpa using hr
        obtain ⟨run', hrun', hid⟩ := hids run (Table.find_mem hrun)
        exact ⟨run', hrun', hid.trans hs.symm⟩
  | settle a run s actual _ hs _ _ _ hres =>
      rw [hres] at hr
      rcases Table.mem_put.1 hr with ⟨rfl, -⟩ | ⟨hr, -⟩
      · exact hold s (Table.find_mem hs)
      · exact hold r hr

variable {run run' : RunRecord}

theorem Accounted.frame (h : j.Accounted run) (hsame : SameLedger run run')
    (hheld : ∀ X, Table.total (Reservation.held run.id X) j'.reservations =
      Table.total (Reservation.held run.id X) j.reservations)
    (hspent : ∀ X, Table.total (Reservation.spent run.id X) j'.reservations =
      Table.total (Reservation.spent run.id X) j.reservations)
    (hwithin : ∀ X, (∀ r ∈ j'.reservations, r.runId = run.id → r.within X) →
      ∀ r ∈ j.reservations, r.runId = run.id → r.within X) : j'.Accounted run' := by
  obtain ⟨hid, hlimits, hreserved, hused⟩ := hsame
  constructor
  · intro X
    rw [hreserved, hid, hheld, h.reserved]
  · intro X
    rw [hused, hid, hspent, h.used]
  · intro X limit hlimit hafter
    rw [hreserved, hused]
    exact h.limited X limit (hlimits ▸ hlimit) (hwithin X (hid ▸ hafter))

theorem accounted_new (hj : j.LedgerInvariant) (hnew : j.findRun run.id = none)
    (hreserved : run.reserved = .zero) (hused : run.used = .zero)
    (hlimits : LimitsNonnegative run.limits) (hres : j'.reservations = j.reservations) :
    j'.Accounted run := by
  have hnone : ∀ r ∈ j.reservations, r.runId ≠ run.id := by
    intro r hr heq
    obtain ⟨row, hrow, hid⟩ := hj.known r hr
    exact Table.find_none hnew row hrow (hid.trans heq)
  constructor
  · intro X
    rw [hreserved, hres, Table.total_zero fun r hr => by simp [Reservation.held, hnone r hr]]
    exact Resources.get_zero X
  · intro X
    rw [hused, hres, Table.total_zero fun r hr => by simp [Reservation.spent, hnone r hr]]
    exact Resources.get_zero X
  · intro X limit hlimit _
    rw [hreserved, hused, Resources.get_zero, add_zero]
    obtain ⟨hc, ht, hm, hw⟩ := hlimits
    cases X with
    | calls =>
        simp only [Budget.limit, Option.map_eq_some_iff] at hlimit
        obtain ⟨n, hn, rfl⟩ := hlimit
        rw [hn, Option.getD_some] at hc
        exact_mod_cast hc
    | tokens =>
        simp only [Budget.limit, Option.map_eq_some_iff] at hlimit
        obtain ⟨n, hn, rfl⟩ := hlimit
        rw [hn, Option.getD_some] at ht
        exact_mod_cast ht
    | microUsd =>
        simp only [Budget.limit, Option.map_eq_some_iff] at hlimit
        obtain ⟨n, hn, rfl⟩ := hlimit
        rw [hn, Option.getD_some] at hm
        exact_mod_cast hm
    | wallSeconds =>
        have hn : run.limits.wallSecondsLimit = some limit := hlimit
        simpa [hn] using hw

theorem accounted_reserving {r : Reservation} (h : j.Accounted run)
    (hwithin : ∀ X, run.exceeds r.amount X = false) (hrun : r.runId = run.id)
    (hopen : r.status = .reserved) (hres : j'.reservations = j.reservations ++ [r]) :
    j'.Accounted (run.reserving a r.amount) := by
  constructor
  · intro X
    rw [hres, Table.total_concat]
    simp [h.reserved X, Reservation.held, hrun, hopen]
  · intro X
    rw [hres, Table.total_concat]
    simp [h.used X, Reservation.spent, hopen]
  · intro X limit hlimit _
    have hX := hwithin X
    simp only [RunRecord.reserving_limits] at hlimit
    simp only [RunRecord.exceeds, hlimit, Option.any_some, RunRecord.projected] at hX
    have hX := of_decide_eq_false hX
    simp only [RunRecord.reserving_reserved, RunRecord.reserving_used, Resources.get_add]
    linarith

theorem accounted_settled {r : Reservation} {actual : Resources} (hj : j.LedgerInvariant)
    (h : j.Accounted run) (hr : r ∈ j.reservations) (hrun : r.runId = run.id)
    (hopen : r.status = .reserved)
    (hres : j'.reservations = Table.put Reservation.id (r.settled a actual) j.reservations)
    (hwithin : ∀ X, (∀ r ∈ j'.reservations, r.runId = run.id → r.within X) →
      ∀ r ∈ j.reservations, r.runId = run.id → r.within X) :
    j'.Accounted (run.settled a r.amount actual) := by
  have hid : (r.settled a actual).id = r.id := rfl
  constructor
  · intro X
    rw [hres, Table.total_put _ hj.keyed hr hid]
    simp [h.reserved X, Reservation.held, hrun, hopen]
  · intro X
    rw [hres, Table.total_put _ hj.keyed hr hid]
    simp [h.used X, Reservation.spent, hrun, hopen]
  · intro X limit hlimit hafter
    have hmem : r.settled a actual ∈ j'.reservations :=
      hres ▸ Table.mem_put.2 (.inl ⟨rfl, r, hr, rfl⟩)
    have hactual : actual.get X ≤ r.amount.get X := hafter _ hmem hrun rfl
    have hold := h.limited X limit hlimit (hwithin X hafter)
    simp only [RunRecord.settled_reserved, RunRecord.settled_used, Resources.get_sub,
      Resources.get_add]
    linarith

theorem LedgerMove.accounted (m : LedgerMove j j') (hj : j.LedgerInvariant) :
    ∀ run ∈ j'.runs, j'.Accounted run := by
  intro run hrun
  have hafter : ∀ X, (∀ r ∈ j'.reservations, r.runId = run.id → r.within X) →
      ∀ r ∈ j.reservations, r.runId = run.id → r.within X := fun _ => m.within_of_after hj
  cases m with
  | idle f hf hruns hres =>
      rw [hruns] at hrun
      obtain ⟨row, hrow, rfl⟩ := List.mem_map.1 hrun
      exact (hj.accounted row hrow).frame (hf row) (by simp [hres]) (by simp [hres])
        (by simp [hres])
  | create row hnew hreserved hused hlimits hruns hres =>
      rw [hruns] at hrun
      rcases List.mem_append.1 hrun with hrun | hrun
      · exact (hj.accounted run hrun).frame ⟨rfl, rfl, rfl, rfl⟩ (by simp [hres]) (by simp [hres])
          (by simp [hres])
      · obtain rfl : run = row := by simpa using hrun
        exact accounted_new hj hnew hreserved hused hlimits hres
  | reserve a row r hrow hwithin hnew hr hopen hruns hres =>
      rw [hruns] at hrun
      rcases Table.mem_put.1 hrun with ⟨rfl, -⟩ | ⟨hmem, hne⟩
      · exact accounted_reserving (hj.accounted row (Table.find_mem hrow)) hwithin hr hopen hres
      · have hother : r.runId ≠ run.id := fun h => hne (h.symm.trans hr)
        refine (hj.accounted run hmem).frame ⟨rfl, rfl, rfl, rfl⟩ ?_ ?_ hafter
        · intro X
          rw [hres, Table.total_concat]
          simp [Reservation.held, hother]
        · intro X
          rw [hres, Table.total_concat]
          simp [Reservation.spent, hother]
  | settle a row r actual hrow hr hrid hopen hruns hres =>
      rw [hruns] at hrun
      have hmemr := Table.find_mem hr
      rcases Table.mem_put.1 hrun with ⟨rfl, -⟩ | ⟨hmem, hne⟩
      · exact accounted_settled hj (hj.accounted row (Table.find_mem hrow)) hmemr hrid hopen hres
          hafter
      · have hother : r.runId ≠ run.id := fun h => hne (h.symm.trans hrid)
        refine (hj.accounted run hmem).frame ⟨rfl, rfl, rfl, rfl⟩ ?_ ?_ hafter
        · intro X
          rw [hres, Table.total_put _ hj.keyed hmemr (by rfl)]
          simp [Reservation.held, hother]
        · intro X
          rw [hres, Table.total_put _ hj.keyed hmemr (by rfl)]
          simp [Reservation.spent, hother]

theorem LedgerMove.invariant (m : LedgerMove j j') (hj : j.LedgerInvariant) :
    j'.LedgerInvariant :=
  ⟨m.runsKeyed hj, m.keyed hj, m.known hj, m.accounted hj⟩

theorem Kept.trans {r s t : Reservation} (h : Kept r s) (h' : Kept s t) : Kept r t := by
  obtain ⟨hid, hrun, hamount, hsame⟩ := h
  obtain ⟨hid', hrun', hamount', hsame'⟩ := h'
  refine ⟨hid'.trans hid, hrun'.trans hrun, hamount'.trans hamount, fun hsettled => ?_⟩
  obtain rfl := hsame hsettled
  exact hsame' hsettled

theorem reserveBudget_again {r : Reservation} (hj : j.LedgerInvariant) (hr : r ∈ j.reservations)
    (hid : r.id ≠ "") (hamount : r.amount.isNonnegative = true) :
    reserveBudget a r.runId r.amount (some r.id) j = (.ok r.id, j) := by
  have hfind : j.findReservation r.id = some r := hj.keyed.find hr
  simp only [Resources.isNonnegative, Bool.and_eq_true, decide_eq_true_eq] at hamount
  obtain ⟨⟨⟨hc, ht⟩, hm⟩, hw⟩ := hamount
  simp [reserveBudget, Option.filter_some, hid, hc, ht, hm, hw, hfind]

theorem settleBudget_again {r : Reservation} {explicit aliases : Actuals}
    (hj : j.LedgerInvariant) (hr : r ∈ j.reservations) (hsettled : r.status = .settled)
    (hsame : r.actual = some (Actuals.resolve explicit aliases))
    (hform : ∀ X ∈ Resource.all, (explicit.given X && aliases.given X) = false)
    (hactual : (Actuals.resolve explicit aliases).isNonnegative = true) :
    ∃ run, settleBudget a r.runId r.id explicit aliases j = (.ok run, j) := by
  obtain ⟨run, hmem, hid⟩ := hj.known r hr
  have hrun : j.findRun r.runId = some run := hid ▸ hj.runsKeyed.find hmem
  have hfind : j.findReservation r.id = some r := hj.keyed.find hr
  simp only [Resources.isNonnegative, Bool.and_eq_true, decide_eq_true_eq] at hactual
  obtain ⟨⟨⟨hc, ht⟩, hm⟩, hw⟩ := hactual
  refine ⟨run, ?_⟩
  simp only [settleBudget, Txn.bind_ok, requireOneForm_ok]
  refine ⟨(), j, ⟨hform, rfl⟩, ?_⟩
  simp [hc, ht, hm, hw, hfind, hsettled, hsame, hrun]

end Journal

variable {sha : Sha256} {a : Ambient} {j : Journal} {calls : List HonestCall}

theorem Issued.ledger_after (sha : Sha256) (i : Issued) (hj : j.LedgerInvariant) (hk : j.StepsKeyed) :
    (i.after sha j).LedgerInvariant ∧
      ∀ r ∈ j.reservations, ∃ r' ∈ (i.after sha j).reservations, Kept r r' := by
  rcases i.outcome_cases sha j with ⟨b, h⟩ | ⟨-, h⟩
  · have m := ledgerMove_of_perform hj hk h
    exact ⟨m.invariant hj, fun r hr => m.kept hj hr⟩
  · rw [h]
    exact ⟨hj, fun r hr => ⟨r, hr, rfl, rfl, rfl, fun _ => rfl⟩⟩

theorem runCalls_ledger (hj : j.LedgerInvariant) (hk : j.StepsKeyed) :
    (runCalls sha (calls.map Subtype.val) j).LedgerInvariant ∧
      ∀ r ∈ j.reservations, ∃ r' ∈ (runCalls sha (calls.map Subtype.val) j).reservations,
        Kept r r' := by
  induction calls generalizing j with
  | nil => exact ⟨hj, fun r hr => ⟨r, hr, rfl, rfl, rfl, fun _ => rfl⟩⟩
  | cons c calls ih =>
      obtain ⟨hafter, hkept⟩ := c.1.ledger_after sha hj hk
      obtain ⟨hend, hlater⟩ := ih hafter ((after_moves hk c).stepsKeyed hk)
      refine ⟨hend, fun r hr => ?_⟩
      obtain ⟨s, hs, hrs⟩ := hkept r hr
      obtain ⟨t, ht, hst⟩ := hlater s hs
      exact ⟨t, ht, hrs.trans hst⟩

theorem history_ledger (sha : Sha256) (calls : List HonestCall) :
    (history sha calls).LedgerInvariant :=
  (runCalls_ledger ledgerInvariant_empty invariant_empty.keyed).1

theorem history_kept (more : List HonestCall) {r : Reservation}
    (hr : r ∈ (history sha calls).reservations) :
    ∃ r' ∈ (history sha (calls ++ more)).reservations, Kept r r' := by
  rw [history_append]
  exact (runCalls_ledger (history_ledger sha calls) (history_invariant sha calls).keyed).2 r hr

def reserveCall (a : Ambient) (runId : String) (amount : Resources)
    (reservationId : Option String) : HonestCall :=
  ⟨⟨.reserveBudget runId amount reservationId, a⟩, trivial⟩

def settleCall (a : Ambient) (runId reservationId : String) (explicit aliases : Actuals) :
    HonestCall :=
  ⟨⟨.settleBudget runId reservationId explicit aliases, a⟩, trivial⟩

theorem reservationIdOf_ne (a : Ambient) (reservationId : Option String) :
    reservationIdOf a reservationId ≠ "" := by
  have hprefix : "budget_" ++ a.uuid ≠ "" := by
    intro h
    have := congrArg String.length h
    simp at this
  cases reservationId with
  | none => exact hprefix
  | some id =>
      by_cases hid : id = ""
      · simp [reservationIdOf, Option.filter_some, hid]
      · simp [reservationIdOf, Option.filter_some, hid]

theorem reserve_repeats {runId id : String} {amount : Resources} {reservationId : Option String}
    (h : (reserveBudget a runId amount reservationId (history sha calls)).1 = .ok id)
    (more : List HonestCall) (a' : Ambient) :
    reserveBudget a' runId amount (some id)
        (history sha (calls ++ reserveCall a runId amount reservationId :: more)) =
      (.ok id, history sha (calls ++ reserveCall a runId amount reservationId :: more)) := by
  let c := reserveCall a runId amount reservationId
  have hcall : reserveBudget a runId amount reservationId (history sha calls) =
      (.ok id, history sha (calls ++ [c])) := by
    rw [history_concat]
    exact Prod.ext h rfl
  obtain ⟨hid, hamount, hcase⟩ := reserveBudget_ok hcall
  have hrow : ∃ r ∈ (history sha (calls ++ [c])).reservations,
      r.id = id ∧ r.runId = runId ∧ r.amount = amount := by
    rcases hcase with ⟨⟨r, hr, hrun, hsame⟩, hj⟩ | ⟨-, run, column, -, -, hj⟩
    · exact ⟨r, hj ▸ Table.find_mem hr, Table.find_key hr, hrun, hsame⟩
    · exact ⟨⟨id, runId, amount, none, .reserved, a.now, none⟩, by simp [hj], rfl, rfl, rfl⟩
  obtain ⟨r, hr, rfl, rfl, rfl⟩ := hrow
  obtain ⟨s, hs, hsid, hsrun, hsamount, -⟩ := history_kept more hr
  rw [List.append_assoc, List.singleton_append] at hs
  have hne : s.id ≠ "" := by
    rw [hsid, hid]
    exact reservationIdOf_ne a reservationId
  have hagain := reserveBudget_again (a := a') (history_ledger sha _) hs hne (hsamount ▸ hamount)
  rwa [hsid, hsrun, hsamount] at hagain

theorem settle_repeats {runId reservationId : String} {explicit aliases : Actuals}
    {run : RunRecord}
    (h : (settleBudget a runId reservationId explicit aliases (history sha calls)).1 = .ok run)
    (more : List HonestCall) (a' : Ambient) :
    ∃ run', settleBudget a' runId reservationId explicit aliases
        (history sha (calls ++ settleCall a runId reservationId explicit aliases :: more)) =
      (.ok run',
        history sha (calls ++ settleCall a runId reservationId explicit aliases :: more)) := by
  let c := settleCall a runId reservationId explicit aliases
  have hcall : settleBudget a runId reservationId explicit aliases (history sha calls) =
      (.ok run, history sha (calls ++ [c])) := by
    rw [history_concat]
    exact Prod.ext h rfl
  have hj := history_ledger sha calls
  obtain ⟨hform, hactual, r, hr, hrun, hcase⟩ := settleBudget_ok hcall
  have hrow : ∃ r ∈ (history sha (calls ++ [c])).reservations, r.id = reservationId ∧
      r.runId = runId ∧ r.status = .settled ∧
      r.actual = some (Actuals.resolve explicit aliases) := by
    have hid : r.id = reservationId := Table.find_key hr
    rcases hcase with ⟨hsettled, hsame, hj'⟩ | ⟨hopen, column, hj'⟩
    · exact ⟨r, hj' ▸ Table.find_mem hr, hid, hrun, hsettled, hsame⟩
    · refine ⟨r.settled a (Actuals.resolve explicit aliases), ?_, hid, hrun, rfl, rfl⟩
      rw [hj']
      refine List.mem_map.2 ⟨r, Table.find_mem hr, ?_⟩
      simp [hid, hopen]
  obtain ⟨r, hr, rfl, rfl, hsettled, hsame⟩ := hrow
  obtain ⟨s, hs, -, -, -, hkept⟩ := history_kept more hr
  obtain rfl := hkept hsettled
  rw [List.append_assoc, List.singleton_append] at hs
  exact settleBudget_again (history_ledger sha _) hs hsettled hsame hform hactual

theorem budget_ledger (sha : Sha256) (calls : List HonestCall) :
    (∀ run ∈ (history sha calls).runs, ∀ X,
      run.reserved.get X =
        Table.total (Reservation.held run.id X) (history sha calls).reservations ∧
      run.used.get X =
        Table.total (Reservation.spent run.id X) (history sha calls).reservations) ∧
    (∀ a runId amount reservationId id,
      (reserveBudget a runId amount reservationId (history sha calls)).1 = .ok id →
      ∀ more a', reserveBudget a' runId amount (some id)
          (history sha (calls ++ reserveCall a runId amount reservationId :: more)) =
        (.ok id, history sha (calls ++ reserveCall a runId amount reservationId :: more))) ∧
    (∀ a runId reservationId explicit aliases run,
      (settleBudget a runId reservationId explicit aliases (history sha calls)).1 = .ok run →
      ∀ more a', ∃ run', settleBudget a' runId reservationId explicit aliases
          (history sha (calls ++ settleCall a runId reservationId explicit aliases :: more)) =
        (.ok run',
          history sha (calls ++ settleCall a runId reservationId explicit aliases :: more))) ∧
    (∀ c : HonestCall, (∃ e, (c.1.outcome sha (history sha calls)).1 = .error e) →
      history sha (calls ++ [c]) = history sha calls) ∧
    (∀ run ∈ (history sha calls).runs, ∀ X limit, run.limits.limit X = some limit →
      (∀ r ∈ (history sha calls).reservations, r.runId = run.id → r.within X) →
      run.reserved.get X + run.used.get X ≤ limit) := by
  have hj := history_ledger sha calls
  refine ⟨?_, ?_, ?_, ?_, ?_⟩
  · intro run hrun X
    exact ⟨(hj.accounted run hrun).reserved X, (hj.accounted run hrun).used X⟩
  · intro a runId amount reservationId id h
    exact reserve_repeats h
  · intro a runId reservationId explicit aliases run h
    exact settle_repeats h
  · rintro c ⟨e, he⟩
    rw [history_concat]
    exact c.1.call.perform_atomic sha c.1.ambient _ e he
  · intro run hrun X
    exact (hj.accounted run hrun).limited X

end Polaris
