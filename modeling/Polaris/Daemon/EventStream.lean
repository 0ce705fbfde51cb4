import Polaris.Journal.Events
import Polaris.Scheduler.Cron
import Polaris.Service.Recovery

namespace Polaris
open PyJson

inductive Frame where
  | event (record : EventRecord)
  | heartbeat
deriving DecidableEq

/-- Where the generator of a response waits. -/
inductive Stage where
  | checking
  | sending (rest : List EventRecord)
  | beating
  | sleeping
  | returned
  | raised (exc : PyError)
deriving DecidableEq

def Stage.ended : Stage → Prop
  | .returned | .raised _ => True
  | _ => False

def Journal.isOver (runId : String) (j : Journal) : Bool :=
  (j.findRun runId).any fun run => run.status.isTerminal

/-- The generator of one response, the journal that it reads and the id of the last event that there
was when the run had come to its end. -/
structure EventStream where
  journal : Journal
  connected : Bool
  stage : Stage
  cursor : ℤ
  idle : ℕ
  frames : List Frame
  closedAt : Option ℕ

def readLastEventId : Option String → Except PyError ℤ
  | none => .ok 0
  | some text =>
      if text = "" then .ok 0
      else (pyInt text).elim
        (.error ⟨.other "HTTPException", "400: Last-Event-ID must be an integer"⟩) .ok

namespace EventStream
variable (runId : String)

def send (record : EventRecord) (records : List EventRecord) (s : EventStream) : EventStream :=
  { s with
    cursor := record.id
    frames := s.frames ++ [.event record]
    stage := .sending records }

/-- What follows when no event was found. -/
def endTurn (s : EventStream) : EventStream :=
  { s with
    stage := match (Journal.getRun runId s.journal).1 with
      | .error exc => .raised exc
      | .ok run => if run.status.isTerminal then .returned else .sleeping }

def turn (s : EventStream) : EventStream :=
  match (Journal.listEvents runId none (some s.cursor) (some 100) s.journal).1 with
  | .error exc => { s with stage := .raised exc }
  | .ok (record :: records) => { s with idle := 0 }.send record records
  | .ok [] =>
      if 15 ≤ s.idle + 1 then
        { s with
          idle := s.idle + 1
          frames := s.frames ++ [.heartbeat]
          stage := .beating }
      else { s with idle := s.idle + 1 }.endTurn runId

/-- The generator goes on to its next suspension. -/
def resume (disconnected : Bool) (s : EventStream) : EventStream :=
  match s.stage with
  | .checking => if disconnected then { s with stage := .returned } else s.turn runId
  | .sending (record :: records) => s.send record records
  | .sending [] => { s with stage := .sleeping }
  | .beating => { s with idle := 0 }.endTurn runId
  | .sleeping => { s with stage := .checking }
  | .returned => s
  | .raised _ => s

def write (j : Journal) (s : EventStream) : EventStream :=
  { s with
    journal := j
    closedAt := s.closedAt.or (if j.isOver runId then some j.events.length else none) }

/-- `events`, up to the response. -/
def opened (lastEventId : Option String) (j : Journal) : Except PyError EventStream := do
  let _ ← (Journal.getRun runId j).1
  let cursor ← readLastEventId lastEventId
  return ⟨j, true, .checking, cursor, 0, [],
    if j.isOver runId then some j.events.length else none⟩

inductive Action where
  | resume (disconnected : Bool)
  | disconnect
  | close
  | write (i : Issued)

variable (sha : Sha256)

/-- A client that is there is not found gone, a generator is closed for one that has gone, and a
table of events that is full takes no more of them. -/
def Enabled (s : EventStream) : Action → Prop
  | .resume disconnected => disconnected = true → s.connected = false
  | .disconnect => True
  | .close => s.connected = false
  | .write i => (i.after sha s.journal).events.length < 2 ^ 63

def perform (s : EventStream) : Action → EventStream
  | .resume disconnected => s.resume runId disconnected
  | .disconnect => { s with connected := false }
  | .close => { s with stage := .returned }
  | .write i => s.write runId (i.after sha s.journal)

inductive Run (C : EventStream → Action → Prop) (s₀ : EventStream) : EventStream → Prop
  | start : Run C s₀ s₀
  | step {s : EventStream} {action : Action} : Run C s₀ s → s.Enabled sha action → C s action →
      Run C s₀ (s.perform runId sha action)

def sent (s : EventStream) : List EventRecord :=
  s.frames.filterMap fun
    | .event record => some record
    | .heartbeat => none

end EventStream

/-- The events of a run with a greater id. -/
def Journal.eventsAfter (runId : String) (cursor : ℤ) (j : Journal) : List EventRecord :=
  j.events.filter fun e => e.runId = runId && cursor < e.id

namespace EventStream
variable {runId : String} {sha : Sha256} {start : ℤ} {s s₀ : EventStream}

/-- Nothing is missed: neither between what was sent, nor at the end of the stream. -/
structure Faithful (runId : String) (start : ℤ) (s : EventStream) : Prop where
  increasing : (s.sent.map EventRecord.id).Pairwise (· < ·)
  first : s.sent <+: s.journal.eventsAfter runId start
  complete : s.stage.ended → s.connected = true → s.journal.isOver runId = true ∧
    ∀ n ∈ s.closedAt, ∀ e ∈ s.journal.eventsAfter runId start, e.id ≤ n → e ∈ s.sent

/-- The run does not end while a heartbeat is sent, and SQLite can hold the cursor, or there is no
more to be read. -/
def Prompt (runId : String) (sha : Sha256) (s : EventStream) : Action → Prop
  | .resume false => s.stage = .checking →
      -2 ^ 63 ≤ s.cursor ∧ (s.cursor < 2 ^ 63 ∨ s.journal.isOver runId = true)
  | .write i => s.stage = .beating → (i.after sha s.journal).isOver runId = true →
      s.journal.isOver runId = true
  | _ => True

end EventStream

namespace Journal
variable {runId : String} {cursor : ℤ} {j j' : Journal}

theorem mem_eventsAfter {e : EventRecord} :
    e ∈ j.eventsAfter runId cursor ↔ e ∈ j.events ∧ e.runId = runId ∧ cursor < e.id := by
  simp [eventsAfter]

theorem Numbered.eventsAfter_increasing (h : j.Numbered) :
    (j.eventsAfter runId cursor).Pairwise fun e f => e.id < f.id := h.increasing.filter _

theorem Numbered.eventsAfter_next (h : j.Numbered) {record : EventRecord} {more : List EventRecord}
    (hnext : j.eventsAfter runId cursor = record :: more) :
    j.eventsAfter runId record.id = more := by
  have hrecord : record ∈ j.eventsAfter runId cursor := by simp [hnext]
  have hcursor : cursor < record.id := (mem_eventsAfter.1 hrecord).2.2
  have hagain : j.eventsAfter runId record.id =
      (j.eventsAfter runId cursor).filter fun e => (record.id : ℤ) < e.id := by
    rw [eventsAfter, eventsAfter, List.filter_filter]
    refine List.filter_congr fun e _ => ?_
    by_cases hid : (record.id : ℤ) < e.id
    · simp [hid, hcursor.trans hid]
    · simp [hid]
  have hsorted := @Numbered.eventsAfter_increasing runId cursor j h
  rw [hnext, List.pairwise_cons] at hsorted
  rw [hagain, hnext, List.filter_cons_of_neg (by simp)]
  refine List.filter_eq_self.2 fun e he => ?_
  have hid := hsorted.1 e he
  simpa using hid

theorem listEvents_after (h : j.Numbered) (hfound : (j.findRun runId).isSome = true)
    (hlow : -2 ^ 63 ≤ cursor) (hhigh : cursor < 2 ^ 63) :
    (listEvents runId none (some cursor) (some 100) j).1 =
      .ok ((j.eventsAfter runId cursor).take 100) := by
  obtain ⟨run, hrun⟩ := Option.isSome_iff_exists.1 hfound
  have hsorted : (j.eventsAfter runId cursor).Pairwise fun e f => e.id ≤ f.id :=
    h.eventsAfter_increasing.imp Nat.le_of_lt
  have hlisted : listEvents runId none (some cursor) (some 100) j =
      (.ok ((j.eventsAfter runId cursor).take 100), j) := by
    simp only [listEvents, Txn.bind_ok, Txn.require_ok, requireRun_ok, Txn.lift_ok, Txn.read_ok,
      Txn.pure_ok]
    refine ⟨(), j, ⟨rfl, rfl⟩, run, j, ⟨hrun, rfl⟩, (), j, ⟨if_pos ⟨hlow, hhigh⟩, rfl⟩, (), j,
      ⟨rfl, rfl⟩, j.eventsAfter runId cursor, j, ⟨?_, rfl⟩, rfl, rfl⟩
    rw [← hsorted.insertionSort_eq]
    simp [eventsAfter]
  rw [hlisted]

theorem listEvents_tooLarge (hfound : (j.findRun runId).isSome = true) (hhigh : 2 ^ 63 ≤ cursor) :
    ∃ exc, (listEvents runId none (some cursor) (some 100) j).1 = .error exc := by
  obtain ⟨run, hrun⟩ := Option.isSome_iff_exists.1 hfound
  cases hlisted : listEvents runId none (some cursor) (some 100) j with
  | mk r j' =>
      cases r with
      | error exc => exact ⟨exc, rfl⟩
      | ok events =>
          simp only [listEvents, Txn.bind_ok, Txn.lift_ok, bindInteger] at hlisted
          obtain ⟨_, _, -, _, _, -, _, _, ⟨hbound, -⟩, -⟩ := hlisted
          rw [if_neg (by omega)] at hbound
          simp at hbound

theorem Appends.eventsAfter (h : j.Appends j') : ∃ more : List EventRecord,
    (∀ e ∈ more, j.events.length < e.id) ∧ ∀ cursor : ℤ, j'.eventsAfter runId cursor =
      j.eventsAfter runId cursor ++ more.filter fun e => cursor < e.id := by
  obtain ⟨new, hnew, hids⟩ := h
  refine ⟨new.filter fun e => e.runId = runId, fun e he => ?_, fun cursor => ?_⟩
  · have hid : e.id ∈ new.map EventRecord.id := List.mem_map_of_mem (List.mem_filter.1 he).1
    rw [hids, List.mem_range'_1] at hid
    omega
  · rw [Journal.eventsAfter, Journal.eventsAfter, hnew, List.filter_append, List.filter_filter]
    simp only [Bool.and_comm]

theorem Numbered.eventsAfter_large (h : j.Numbered) (hlarge : (j.events.length : ℤ) ≤ cursor) :
    j.eventsAfter runId cursor = [] := by
  refine List.filter_eq_nil_iff.2 fun e he => ?_
  have hid := (h.bounds he).2
  have hsmall : ¬cursor < e.id := by omega
  simp [hsmall]

theorem isOver_after {sha : Sha256} {i : Issued} (hk : j.StepsKeyed)
    (hover : j.isOver runId = true) : (i.after sha j).isOver runId = true := by
  rcases i.outcome_cases sha j with ⟨b, h⟩ | ⟨-, h⟩
  · obtain ⟨run, hrun, hterminal⟩ := (Option.any_eq_true _ _).1 hover
    obtain ⟨run', hrun', -, hstatus⟩ := runs_follow hk h hrun
    refine (Option.any_eq_true _ _).2 ⟨run', hrun', ?_⟩
    have hend : run.status.transitions = [] := by
      cases hcases : run.status <;> simp_all [RunStatus.isTerminal, RunStatus.transitions]
    rwa [hstatus hend]
  · rwa [h]

theorem found_after {sha : Sha256} {i : Issued} (hk : j.StepsKeyed)
    (hfound : (j.findRun runId).isSome = true) :
    ((i.after sha j).findRun runId).isSome = true := by
  rcases i.outcome_cases sha j with ⟨b, h⟩ | ⟨-, h⟩
  · obtain ⟨run, hrun⟩ := Option.isSome_iff_exists.1 hfound
    obtain ⟨run', hrun', -⟩ := runs_follow hk h hrun
    exact Option.isSome_iff_exists.2 ⟨run', hrun'⟩
  · rwa [h]

end Journal

namespace EventStream
variable {runId : String} {sha : Sha256} {start : ℤ} {s : EventStream}

/-- What is kept at every point of the generator. -/
structure Follows (runId : String) (start : ℤ) (s : EventStream) : Prop where
  keyed : s.journal.StepsKeyed
  numbered : s.journal.Numbered
  found : (s.journal.findRun runId).isSome = true
  room : s.journal.events.length < 2 ^ 63
  cursor : s.cursor = start ∨ start < s.cursor ∧ s.cursor ≤ s.journal.events.length
  split : s.journal.eventsAfter runId start = s.sent ++ s.journal.eventsAfter runId s.cursor
  closed : s.closedAt.isSome = s.journal.isOver runId
  bound : ∀ n ∈ s.closedAt, n ≤ s.journal.events.length

/-- All that there was when the run ended is behind the cursor. -/
def Caught (runId : String) (s : EventStream) : Prop :=
  ∀ n ∈ s.closedAt, ∀ e ∈ s.journal.eventsAfter runId s.cursor, n < e.id

/-- What is kept at one point of it. -/
def Waits (runId : String) (s : EventStream) : Prop :=
  match s.stage with
  | .sending rest => rest <+: s.journal.eventsAfter runId s.cursor
  | .beating => s.Caught runId
  | .returned | .raised _ => s.connected = true → s.journal.isOver runId = true ∧ s.Caught runId
  | .checking | .sleeping => True

theorem Follows.faithful (h : s.Follows runId start) (hwaits : s.Waits runId) :
    s.Faithful runId start := by
  have hfirst : s.sent <+: s.journal.eventsAfter runId start := ⟨_, h.split.symm⟩
  refine ⟨?_, hfirst, fun hended hconnected => ?_⟩
  · have hsorted := h.numbered.eventsAfter_increasing.sublist hfirst.sublist
    exact List.pairwise_map.2 hsorted
  · have hcaught : s.journal.isOver runId = true ∧ s.Caught runId := by
      unfold Waits at hwaits
      cases hstage : s.stage with
      | returned => simpa [hstage, hconnected] using hwaits
      | raised exc => simpa [hstage, hconnected] using hwaits
      | _ => simp [Stage.ended, hstage] at hended
    refine ⟨hcaught.1, fun n hn e he hid => ?_⟩
    rw [h.split, List.mem_append] at he
    rcases he with he | he
    · exact he
    · have hlater := hcaught.2 n hn e he
      omega

theorem Follows.send (h : s.Follows runId start) {record : EventRecord}
    {records : List EventRecord} (hrest : record :: records <+: s.journal.eventsAfter runId s.cursor) :
    (s.send record records).Follows runId start ∧ (s.send record records).Waits runId := by
  obtain ⟨later, hlater⟩ := hrest
  have hnext := h.numbered.eventsAfter_next hlater.symm
  have hrecord : record ∈ s.journal.eventsAfter runId s.cursor := by simp [← hlater]
  obtain ⟨hmem, -, hafter⟩ := Journal.mem_eventsAfter.1 hrecord
  have hbound := (h.numbered.bounds hmem).2
  refine ⟨{ h with cursor := .inr ⟨?_, ?_⟩, split := ?_ }, ?_⟩
  · rcases h.cursor with hcursor | hcursor
    · exact hcursor ▸ hafter
    · exact hcursor.1.trans hafter
  · exact Int.ofNat_le.2 hbound
  · change s.journal.eventsAfter runId start = _
    rw [h.split, ← hlater]
    simp [EventStream.send, EventStream.sent, hnext]
  · exact ⟨later, hnext.symm⟩

theorem Follows.endTurn (h : s.Follows runId start) (hcaught : s.Caught runId) :
    (s.endTurn runId).Follows runId start ∧ (s.endTurn runId).Waits runId := by
  obtain ⟨run, hrun⟩ := Option.isSome_iff_exists.1 h.found
  have hread : Journal.getRun runId s.journal = (.ok run, s.journal) :=
    Journal.requireRun_ok.2 ⟨hrun, rfl⟩
  refine ⟨{ h with }, ?_⟩
  by_cases hover : run.status.isTerminal = true
  · have hstage : (s.endTurn runId).stage = .returned := by simp [EventStream.endTurn, hread, hover]
    unfold Waits
    rw [hstage]
    exact fun _ => ⟨(Option.any_eq_true _ _).2 ⟨run, hrun, hover⟩, hcaught⟩
  · have hstage : (s.endTurn runId).stage = .sleeping := by simp [EventStream.endTurn, hread, hover]
    unfold Waits
    rw [hstage]
    trivial

theorem Follows.turn (h : s.Follows runId start) (hlow : -2 ^ 63 ≤ s.cursor)
    (hhigh : s.cursor < 2 ^ 63 ∨ s.journal.isOver runId = true) :
    (s.turn runId).Follows runId start ∧ (s.turn runId).Waits runId := by
  by_cases hfits : s.cursor < 2 ^ 63
  · have hlisted := Journal.listEvents_after h.numbered h.found hlow hfits
    unfold EventStream.turn
    rw [hlisted]
    cases hevents : s.journal.eventsAfter runId s.cursor with
    | nil =>
        have hcaught : s.Caught runId := by simp [Caught, hevents]
        simp only [List.take_nil]
        split
        · exact ⟨{ h with split := by simpa [EventStream.sent] using h.split }, hcaught⟩
        · exact Follows.endTurn { h with } hcaught
    | cons record records =>
        have hidle : ({ s with idle := 0 } : EventStream).Follows runId start := { h with }
        have hrest : record :: records.take 99 <+: s.journal.eventsAfter runId s.cursor := by
          rw [hevents, List.cons_prefix_cons]
          exact ⟨rfl, List.take_prefix 99 records⟩
        exact hidle.send hrest
  · have hover := hhigh.resolve_left hfits
    obtain ⟨exc, hraised⟩ := Journal.listEvents_tooLarge h.found (not_lt.1 hfits)
    unfold EventStream.turn
    rw [hraised]
    refine ⟨{ h with }, fun _ => ⟨hover, fun n _ e he => ?_⟩⟩
    have hroom := h.room
    change e ∈ s.journal.eventsAfter runId s.cursor at he
    rw [h.numbered.eventsAfter_large (by omega)] at he
    simp at he

theorem Follows.resume (h : s.Follows runId start) (hwaits : s.Waits runId) {disconnected : Bool}
    (henabled : s.Enabled sha (.resume disconnected))
    (hprompt : s.Prompt runId sha (.resume disconnected)) :
    (s.resume runId disconnected).Follows runId start ∧
      (s.resume runId disconnected).Waits runId := by
  unfold Waits at hwaits
  unfold EventStream.resume
  cases hstage : s.stage with
  | checking =>
      cases disconnected with
      | true =>
          have hgone : s.connected = false := henabled rfl
          refine ⟨{ h with }, fun hconnected => ?_⟩
          simp [hgone] at hconnected
      | false =>
          obtain ⟨hlow, hhigh⟩ := hprompt hstage
          exact h.turn hlow hhigh
  | sending rest =>
      rw [hstage] at hwaits
      cases rest with
      | nil => exact ⟨{ h with }, trivial⟩
      | cons record records => exact h.send hwaits
  | beating =>
      rw [hstage] at hwaits
      exact Follows.endTurn { h with } hwaits
  | sleeping => exact ⟨{ h with }, trivial⟩
  | returned =>
      rw [hstage] at hwaits
      refine ⟨h, ?_⟩
      unfold Waits
      rwa [hstage]
  | raised exc =>
      rw [hstage] at hwaits
      refine ⟨h, ?_⟩
      unfold Waits
      rwa [hstage]

theorem Follows.write (h : s.Follows runId start) (hwaits : s.Waits runId) {i : Issued}
    (henabled : s.Enabled sha (.write i)) (hprompt : s.Prompt runId sha (.write i)) :
    (s.write runId (i.after sha s.journal)).Follows runId start ∧
      (s.write runId (i.after sha s.journal)).Waits runId := by
  have happends := i.appends sha h.keyed
  obtain ⟨more, hmore, hafter⟩ := @Journal.Appends.eventsAfter runId _ _ happends
  have hlength := happends.length
  have hover := @Journal.isOver_after runId _ sha i h.keyed
  have hclosed : ∀ n, s.closedAt = some n →
      (s.write runId (i.after sha s.journal)).closedAt = some n := fun n hn => by
    simp [EventStream.write, hn]
  have hcaught : s.journal.isOver runId = true → s.Caught runId →
      (s.write runId (i.after sha s.journal)).Caught runId := by
    intro hwas hcaught n hn e he
    obtain ⟨m, hm⟩ := Option.isSome_iff_exists.1 (h.closed.trans hwas)
    obtain rfl : m = n := Option.some.inj ((hclosed m hm).symm.trans hn)
    change e ∈ (i.after sha s.journal).eventsAfter runId s.cursor at he
    rw [hafter, List.mem_append] at he
    rcases he with he | he
    · exact hcaught m hm e he
    · have hlarge := hmore e (List.mem_filter.1 he).1
      have hbound := h.bound m hm
      omega
  refine ⟨⟨Journal.stepsKeyed_after h.keyed, happends.numbered h.numbered,
    Journal.found_after h.keyed h.found, henabled, ?_, ?_, ?_, ?_⟩, ?_⟩
  · rcases h.cursor with hcursor | hcursor
    · exact .inl hcursor
    · exact .inr ⟨hcursor.1, hcursor.2.trans (Int.ofNat_le.2 hlength)⟩
  · -- No new event is behind the cursor unless it is behind the start.
    change (i.after sha s.journal).eventsAfter runId start =
      s.sent ++ (i.after sha s.journal).eventsAfter runId s.cursor
    rw [hafter, hafter, h.split, List.append_assoc]
    rcases h.cursor with hcursor | hcursor
    · rw [hcursor]
    · refine congrArg _ (congrArg _ (List.filter_congr fun e he => ?_))
      have hlarge := hmore e he
      have hstart : start < e.id := by omega
      have hnew : s.cursor < e.id := by omega
      simp [hstart, hnew]
  · change (s.closedAt.or _).isSome = (i.after sha s.journal).isOver runId
    have hwas := h.closed
    cases hat : s.closedAt with
    | some n =>
        rw [hat] at hwas
        simp [hover hwas.symm]
    | none =>
        by_cases hnow : (i.after sha s.journal).isOver runId = true <;> simp [hnow]
  · intro n hn
    change s.closedAt.or _ = some n at hn
    change n ≤ (i.after sha s.journal).events.length
    cases hat : s.closedAt with
    | some m =>
        have hbound := h.bound m hat
        simp only [hat, Option.some_or, Option.some.injEq] at hn
        omega
    | none =>
        rw [hat, Option.none_or] at hn
        split at hn
        · exact (Option.some.inj hn).ge
        · simp at hn
  · unfold Waits at hwaits ⊢
    change match s.stage with
      | .sending rest => rest <+: (i.after sha s.journal).eventsAfter runId s.cursor
      | .beating => _
      | .returned | .raised _ => s.connected = true → _ ∧ _
      | .checking | .sleeping => True
    cases hstage : s.stage with
    | sending rest =>
        rw [hstage] at hwaits
        rw [hafter]
        exact hwaits.trans (List.prefix_append _ _)
    | beating =>
        rw [hstage] at hwaits
        by_cases hnow : (i.after sha s.journal).isOver runId = true
        · exact hcaught (hprompt hstage hnow) hwaits
        · intro n hn
          have hwas : s.closedAt = none := by
            cases hat : s.closedAt with
            | none => rfl
            | some m =>
                have hclosed := h.closed
                rw [hat] at hclosed
                exact absurd (hover hclosed.symm) hnow
          simp [EventStream.write, hwas, hnow] at hn
    | returned =>
        rw [hstage] at hwaits
        exact fun hconnected => ⟨hover (hwaits hconnected).1,
          hcaught (hwaits hconnected).1 (hwaits hconnected).2⟩
    | raised exc =>
        rw [hstage] at hwaits
        exact fun hconnected => ⟨hover (hwaits hconnected).1,
          hcaught (hwaits hconnected).1 (hwaits hconnected).2⟩
    | checking => trivial
    | sleeping => trivial

theorem Follows.perform (h : s.Follows runId start) (hwaits : s.Waits runId) {action : Action}
    (henabled : s.Enabled sha action) (hprompt : s.Prompt runId sha action) :
    (s.perform runId sha action).Follows runId start ∧ (s.perform runId sha action).Waits runId := by
  cases action with
  | resume disconnected => exact h.resume hwaits henabled hprompt
  | disconnect =>
      refine ⟨{ h with }, ?_⟩
      unfold Waits at hwaits ⊢
      change match s.stage with
        | .sending rest => rest <+: s.journal.eventsAfter runId s.cursor
        | .beating => s.Caught runId
        | .returned | .raised _ => false = true → _
        | .checking | .sleeping => True
      cases hstage : s.stage <;> simp_all
  | close =>
      have hgone : s.connected = false := henabled
      refine ⟨{ h with }, fun hconnected => ?_⟩
      simp [EventStream.perform, hgone] at hconnected
  | write i => exact h.write hwaits henabled hprompt

theorem opened_follows {lastEventId : Option String} {j : Journal} (hkeyed : j.StepsKeyed)
    (hnumbered : j.Numbered) (hroom : j.events.length < 2 ^ 63)
    (hopened : opened runId lastEventId j = .ok s) :
    s.Follows runId s.cursor ∧ s.Waits runId := by
  obtain ⟨run, hrun, hopened⟩ := bind_eq_ok.1 hopened
  obtain ⟨cursor, -, hopened⟩ := bind_eq_ok.1 hopened
  obtain rfl := Except.ok.inj hopened
  have hread : Journal.requireRun runId j = (.ok run, (Journal.requireRun runId j).2) :=
    Prod.ext hrun rfl
  have hfound : (j.findRun runId).isSome = true :=
    Option.isSome_iff_exists.2 ⟨run, (Journal.requireRun_ok.1 hread).1⟩
  refine ⟨⟨hkeyed, hnumbered, hfound, hroom, .inl rfl, rfl, ?_, ?_⟩, trivial⟩
  · by_cases hover : j.isOver runId = true <;> simp [hover]
  · intro n hn
    by_cases hover : j.isOver runId = true
    · simp only [hover, ↓reduceIte, Option.mem_def, Option.some.injEq] at hn
      exact hn.ge
    · simp [hover] at hn

theorem Run.follows {s₀ : EventStream} (h : Run runId sha (Prompt runId sha) s₀ s)
    (hfollows : s₀.Follows runId start) (hwaits : s₀.Waits runId) :
    s.Follows runId start ∧ s.Waits runId := by
  induction h with
  | start => exact ⟨hfollows, hwaits⟩
  | step _ henabled hprompt ih => exact ih.1.perform ih.2 henabled hprompt

/-- The journal of a database that is not yet full. -/
def Stored (sha : Sha256) (j : Journal) : Prop :=
  (∃ calls : List Issued, j = runCalls sha calls .empty) ∧ j.events.length < 2 ^ 63

theorem Stored.follows {lastEventId : Option String} {j : Journal} (h : Stored sha j)
    (hopened : opened runId lastEventId j = .ok s) :
    s.Follows runId s.cursor ∧ s.Waits runId := by
  obtain ⟨⟨calls, rfl⟩, hroom⟩ := h
  obtain ⟨hkeyed, hnumbered⟩ := Journal.runCalls_numbered sha calls
  exact opened_follows hkeyed hnumbered hroom hopened

theorem stream_faithful {lastEventId : Option String} {j : Journal} {s₀ : EventStream}
    (hstored : Stored sha j) (hopened : opened runId lastEventId j = .ok s₀)
    (hrun : Run runId sha (Prompt runId sha) s₀ s) : s.Faithful runId s₀.cursor := by
  obtain ⟨hfollows, hwaits⟩ := hstored.follows hopened
  obtain ⟨hfollows', hwaits'⟩ := hrun.follows hfollows hwaits
  exact hfollows'.faithful hwaits'

theorem Run.resumes {C : EventStream → Action → Prop} (n : ℕ)
    (h : ∀ k < n, C ((resume runId false)^[k] s) (.resume false)) :
    Run runId sha C s ((resume runId false)^[n] s) := by
  induction n with
  | zero => exact .start
  | succ n ih =>
      rw [Function.iterate_succ_apply']
      have hbefore := ih fun k hk => h k (Nat.lt_succ_of_lt hk)
      have henabled : Enabled sha ((resume runId false)^[n] s) (.resume false) :=
        fun hgone => absurd hgone Bool.false_ne_true
      exact hbefore.step henabled (h n n.lt_succ_self)

end EventStream

/-! A run that is cancelled while its stream sends a heartbeat. -/

namespace Watched
open EventStream

def sha : Sha256 := .ofTable [
  ("\"single\"", "0fff5f85e4fa1de522cb860c8f414693642420ddf27f55e3f9975a17728b7469"),
  ("\x7b\x7d", "44136fa355b3678a1146ad16f7e8649e94fb4fc21fe77e8310c060f61caaff8a"),
  ("\x7b\"call_limit\":null,\"micro_usd_limit\":null,\"token_limit\":null," ++
    "\"wall_seconds_limit\":null\x7d",
    "16e0c121f29915931b50f29984818a4ae673e69c7c1b1cb02fa08d01cceb8523")]

def clock (t : Timestamp) : Ambient := ⟨t, t, t, "55555555555555555555555555555555"⟩

def runId : String := "run_55555555555555555555555555555555"

def create : Issued :=
  ⟨.createRun "single" (.map .dict []) (.map .dict []) ⟨none, none, none, none⟩ none none, clock 1⟩

def cancel : Issued := ⟨.markRunStatus runId .cancelled, clock 2⟩

def journal : Journal := runCalls sha [create] .empty

def finished : Journal := runCalls sha [create, cancel] .empty

/-- The stream once the response has begun. -/
def first (j : Journal) : EventStream :=
  ⟨j, true, .checking, 0, 0, [], if j.isOver runId then some j.events.length else none⟩

theorem opens {j : Journal} (hfound : (j.findRun runId).isSome = true) :
    opened runId none j = .ok (first j) := by
  obtain ⟨run, hrun⟩ := Option.isSome_iff_exists.1 hfound
  have hread : Journal.getRun runId j = (.ok run, j) := Journal.requireRun_ok.2 ⟨hrun, rfl⟩
  simp [opened, hread, readLastEventId, first, bind, Except.bind, pure, Except.pure]

/-- Fifteen turns that find nothing, after one that finds the first event. -/
def beating : EventStream := (resume runId false)^[32] (first journal)

def missed : EventStream := (beating.write runId (cancel.after sha beating.journal)).resume runId false

theorem beating_cancelled : missed.stage = .returned ∧ missed.connected = true ∧
    missed.sent.map EventRecord.id = [1] ∧ missed.closedAt = some 2 ∧
    (missed.journal.eventsAfter runId 0).map EventRecord.id = [1, 2] := by
  decide +kernel

theorem finished_sent : ((resume runId false)^[6] (first finished)).stage = .returned := by
  decide +kernel

end Watched

namespace EventStream

theorem stream_faithful_finished : ∃ s, Run Watched.runId Watched.sha
      (Prompt Watched.runId Watched.sha) (Watched.first Watched.finished) s ∧ s.stage.ended ∧
    s.Faithful Watched.runId 0 := by
  have hcursor : ∀ k < 6, -2 ^ 63 ≤
      ((resume Watched.runId false)^[k] (Watched.first Watched.finished)).cursor ∧
      ((resume Watched.runId false)^[k] (Watched.first Watched.finished)).cursor < 2 ^ 63 := by
    decide +kernel
  have hprompt : ∀ k < 6, Prompt Watched.runId Watched.sha
      ((resume Watched.runId false)^[k] (Watched.first Watched.finished)) (.resume false) :=
    fun k hk _ => ⟨(hcursor k hk).1, .inl (hcursor k hk).2⟩
  have hrun : Run Watched.runId Watched.sha (Prompt Watched.runId Watched.sha)
      (Watched.first Watched.finished)
      ((resume Watched.runId false)^[6] (Watched.first Watched.finished)) := Run.resumes 6 hprompt
  have hopened := @Watched.opens Watched.finished (by decide +kernel)
  have hstored : Stored Watched.sha Watched.finished := ⟨⟨_, rfl⟩, by decide +kernel⟩
  refine ⟨_, hrun, ?_, stream_faithful hstored hopened hrun⟩
  rw [Watched.finished_sent]
  trivial

theorem last_event_missed : ¬∀ (sha : Sha256) (runId : String) (lastEventId : Option String)
    (j : Journal) (s₀ s : EventStream), Stored sha j → opened runId lastEventId j = .ok s₀ →
    Run runId sha (fun _ _ => True) s₀ s → s.Faithful runId s₀.cursor := by
  intro h
  have hstored : Stored Watched.sha Watched.journal := ⟨⟨_, rfl⟩, by decide +kernel⟩
  have hopened := @Watched.opens Watched.journal (by decide +kernel)
  have hbeating : Run Watched.runId Watched.sha (fun _ _ => True) (Watched.first Watched.journal)
      Watched.beating := Run.resumes 32 fun _ _ => trivial
  have hroom : Watched.beating.Enabled Watched.sha (.write Watched.cancel) := by
    unfold Enabled
    decide +kernel
  have henabled : (Watched.beating.perform Watched.runId Watched.sha (.write Watched.cancel)).Enabled
      Watched.sha (.resume false) := fun hgone => absurd hgone Bool.false_ne_true
  have hmissed := (hbeating.step hroom trivial).step henabled trivial
  have hsame : (Watched.beating.perform Watched.runId Watched.sha (.write Watched.cancel)).perform
      Watched.runId Watched.sha (.resume false) = Watched.missed := rfl
  rw [hsame] at hmissed
  obtain ⟨hreturned, hconnected, hsent, hclosed, hall⟩ := Watched.beating_cancelled
  obtain ⟨-, hcomplete⟩ := (h _ _ _ _ _ _ hstored hopened hmissed).complete
    (by rw [hreturned]; trivial) hconnected
  have hsecond : (2 : ℕ) ∈ (Watched.missed.journal.eventsAfter Watched.runId 0).map EventRecord.id := by
    rw [hall]
    decide
  obtain ⟨e, he, hid⟩ := List.mem_map.1 hsecond
  have hmem := List.mem_map_of_mem (f := EventRecord.id) (hcomplete 2 hclosed e he hid.le)
  rw [hsent, hid] at hmem
  simp at hmem

end EventStream

end Polaris
