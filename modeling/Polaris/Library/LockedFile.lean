import Mathlib.Data.List.Nodup
import Mathlib.Logic.Function.Basic
import Mathlib.Logic.Relation
import Mathlib.Tactic.Common

/-! A file that is read as a whole, and changed behind a lock by a new file that takes its place. -/

namespace LockedFile

/-- What a call makes of the file that it has read: its answer, and what it writes. -/
structure Calls (κ ρ β : Type) where
  isRead : κ → Bool
  /-- The answer of a call that is refused before it takes the lock. -/
  refuse : κ → Option ρ
  plan : κ → Option (List β) → ρ × Option (List β)
  /-- The answer of a call whose file was replaced between two looks at it. -/
  changed : ρ
  plan_read : ∀ c file, isRead c = true → (plan c file).2 = none
  plan_refuse : ∀ c file r, refuse c = some r → plan c file = (r, none)

inductive Phase (ρ β : Type) where
  | idle
  | waiting
  | looking
  | inspected (seen : ℕ)
  | reading (whole got : List β)
  | loaded (file : Option (List β))
  | writing (payload written : List β) (answer : ρ)
  | replaced (answer : ρ)
  | ended (answer : ρ)
  | failed

/-- The callers' phases, the file, and the lock's holder. The last two only record what has
happened: how many replacements there had been when a caller began, and by whom they were made. -/
structure State (ι ρ β : Type) where
  file : Option (List β)
  holder : Option ι
  phase : ι → Phase ρ β
  began : ι → ℕ
  log : List ι

variable {ι κ ρ β : Type} [DecidableEq ι]

namespace State
variable (s : State ι ρ β) (i : ι)

def enter (phase : Phase ρ β) : State ι ρ β :=
  { s with phase := Function.update s.phase i phase }

def begin (phase : Phase ρ β) : State ι ρ β :=
  { s.enter i phase with began := Function.update s.began i s.log.length }

def release : State ι ρ β :=
  { s with holder := if s.holder = some i then none else s.holder }

def acquire : State ι ρ β := { s with holder := some i }

def replace (payload : List β) : State ι ρ β :=
  { s with file := some payload, log := s.log ++ [i] }

def start (file : Option (List β)) : State ι ρ β := ⟨file, none, fun _ => .idle, fun _ => 0, []⟩

end State

open State

/-- One step of the call that each caller makes. A caller fails where the system refuses a step,
where it has waited too long, and where it is killed; its lock is free then. -/
inductive Step (p : Calls κ ρ β) (calls : ι → κ) (s : State ι ρ β) : State ι ρ β → Prop
  | refuses {i : ι} {r : ρ} : s.phase i = .idle → p.refuse (calls i) = some r →
      Step p calls s (s.begin i (.ended r))
  | begins {i : ι} : s.phase i = .idle → p.refuse (calls i) = none →
      Step p calls s (s.begin i (if p.isRead (calls i) then .looking else .waiting))
  | locks {i : ι} : s.phase i = .waiting → s.holder = none →
      Step p calls s ((s.acquire i).enter i .looking)
  | misses {i : ι} : s.phase i = .looking → s.file = none →
      Step p calls s (s.enter i (.loaded none))
  | inspects {i : ι} : s.phase i = .looking → s.file.isSome = true →
      Step p calls s (s.enter i (.inspected s.log.length))
  | opens {i : ι} {seen : ℕ} {whole : List β} : s.phase i = .inspected seen →
      s.file = some whole → Step p calls s (s.enter i (.reading whole []))
  | changes {i : ι} {seen : ℕ} : s.phase i = .inspected seen → s.log.length ≠ seen →
      Step p calls s ((s.release i).enter i (.ended p.changed))
  | reads {i : ι} {whole got : List β} (chunk : List β) : s.phase i = .reading whole got →
      got ++ chunk <+: whole → Step p calls s (s.enter i (.reading whole (got ++ chunk)))
  | loads {i : ι} {whole : List β} : s.phase i = .reading whole whole →
      Step p calls s (s.enter i (.loaded (some whole)))
  | answers {i : ι} {file : Option (List β)} {r : ρ} : s.phase i = .loaded file →
      p.plan (calls i) file = (r, none) → Step p calls s ((s.release i).enter i (.ended r))
  | stages {i : ι} {file : Option (List β)} {r : ρ} {payload : List β} :
      s.phase i = .loaded file → p.plan (calls i) file = (r, some payload) →
      Step p calls s (s.enter i (.writing payload [] r))
  | writes {i : ι} {payload written : List β} {r : ρ} (chunk : List β) :
      s.phase i = .writing payload written r → written ++ chunk <+: payload →
      Step p calls s (s.enter i (.writing payload (written ++ chunk) r))
  | replaces {i : ι} {payload : List β} {r : ρ} : s.phase i = .writing payload payload r →
      Step p calls s ((s.replace i payload).enter i (.replaced r))
  | returns {i : ι} {r : ρ} : s.phase i = .replaced r →
      Step p calls s ((s.release i).enter i (.ended r))
  | fails {i : ι} : s.phase i ≠ .idle → (∀ r, s.phase i ≠ .ended r) →
      Step p calls s ((s.release i).enter i .failed)

abbrev Run (p : Calls κ ρ β) (calls : ι → κ) : State ι ρ β → State ι ρ β → Prop :=
  Relation.ReflTransGen (Step p calls)

/-! The calls one after the other. -/

section
variable (p : Calls κ ρ β) (calls : ι → κ) (first : Option (List β))

/-- What a call leaves of the file when it is made alone. -/
def effect (file : Option (List β)) (c : κ) : Option (List β) :=
  match (p.plan c file).2 with
  | some payload => some payload
  | none => file

def valueAt (log : List ι) : Option (List β) :=
  log.foldl (fun file i => effect p file (calls i)) first

/-- The caller's call took effect as one of the replacements after it began. -/
def Wrote (s : State ι ρ β) (i : ι) (r : ρ) : Prop :=
  ∃ n payload, s.began i ≤ n ∧ s.log[n]? = some i ∧
    p.plan (calls i) (valueAt p calls first (s.log.take n)) = (r, some payload)

/-- The caller saw the file that there was after one of the replacements, after it began. -/
def Sees (s : State ι ρ β) (i : ι) (file : Option (List β)) : Prop :=
  ∃ n, s.began i ≤ n ∧ n ≤ s.log.length ∧ file = valueAt p calls first (s.log.take n)

def Told (s : State ι ρ β) (i : ι) (r : ρ) : Prop :=
  ∃ file, Sees p calls first s i file ∧ p.plan (calls i) file = (r, none)

end

/-! What every caller can rely on. -/

section
variable (p : Calls κ ρ β) (calls : ι → κ) (first : Option (List β))

/-- A caller that changes the file holds the lock. -/
def Locks (s : State ι ρ β) (i : ι) : Prop := p.isRead (calls i) = false → s.holder = some i

def Ok (s : State ι ρ β) (i : ι) : Phase ρ β → Prop
  | .idle | .waiting => i ∉ s.log
  | .looking => i ∉ s.log ∧ Locks p calls s i
  | .inspected seen => i ∉ s.log ∧ Locks p calls s i ∧
      (p.isRead (calls i) = false → seen = s.log.length)
  | .reading whole got => i ∉ s.log ∧ Locks p calls s i ∧ got <+: whole ∧
      Sees p calls first s i (some whole) ∧ (p.isRead (calls i) = false → s.file = some whole)
  | .loaded file => i ∉ s.log ∧ Locks p calls s i ∧ Sees p calls first s i file ∧
      (p.isRead (calls i) = false → s.file = file)
  | .writing payload _ r => i ∉ s.log ∧ s.holder = some i ∧
      p.plan (calls i) s.file = (r, some payload)
  | .replaced r => s.holder = some i ∧ Wrote p calls first s i r
  | .ended r => Wrote p calls first s i r ∨ i ∉ s.log ∧
      (Told p calls first s i r ∨ p.isRead (calls i) = true ∧ r = p.changed)
  | .failed => True

structure Invariant (s : State ι ρ β) : Prop where
  file : s.file = valueAt p calls first s.log
  nodup : s.log.Nodup
  began : ∀ i, s.phase i ≠ .idle → s.began i ≤ s.log.length
  ok : ∀ i, Ok p calls first s i (s.phase i)

end

section
variable {p : Calls κ ρ β} {calls : ι → κ} {first : Option (List β)} {s t : State ι ρ β} {i : ι}

theorem isRead_of_plan {file : Option (List β)} {c : κ} {r : ρ} {payload : List β}
    (h : p.plan c file = (r, some payload)) : p.isRead c = false := by
  cases hread : p.isRead c with
  | false => rfl
  | true =>
      have hnone := p.plan_read c file hread
      simp [h] at hnone

omit [DecidableEq ι] in
theorem valueAt_concat (log : List ι) (i : ι) :
    valueAt p calls first (log ++ [i]) = effect p (valueAt p calls first log) (calls i) := by
  simp [valueAt]

omit [DecidableEq ι] in
theorem Wrote.of_log {r : ρ} (hlog : s.log <+: t.log) (hbegan : t.began i = s.began i)
    (h : Wrote p calls first s i r) : Wrote p calls first t i r := by
  obtain ⟨more, hmore⟩ := hlog
  obtain ⟨n, payload, hn, hi, hplan⟩ := h
  obtain ⟨hlt, -⟩ := List.getElem?_eq_some_iff.1 hi
  refine ⟨n, payload, by rw [hbegan]; exact hn, ?_, ?_⟩
  · rw [← hmore, List.getElem?_append_left hlt, hi]
  · rw [← hmore, List.take_append_of_le_length (Nat.le_of_lt hlt), hplan]

omit [DecidableEq ι] in
theorem Sees.of_log {file : Option (List β)} (hlog : s.log <+: t.log)
    (hbegan : t.began i = s.began i) (h : Sees p calls first s i file) :
    Sees p calls first t i file := by
  obtain ⟨n, hn, hle, rfl⟩ := h
  obtain ⟨more, hmore⟩ := hlog
  refine ⟨n, by rw [hbegan]; exact hn, ?_, ?_⟩
  · rw [← hmore, List.length_append]
    omega
  · rw [← hmore, List.take_append_of_le_length hle]

omit [DecidableEq ι] in
theorem Sees.now (h : Invariant p calls first s) (hbegan : s.began i ≤ s.log.length) :
    Sees p calls first s i s.file :=
  ⟨s.log.length, hbegan, Nat.le_refl _, by rw [List.take_length, h.file]⟩

omit [DecidableEq ι] in
/-- Where no file is replaced, what a caller relies on stays. -/
theorem Ok.frame {phase : Phase ρ β} (hfile : t.file = s.file) (hlog : t.log = s.log)
    (hbegan : t.began i = s.began i) (hholder : s.holder = some i → t.holder = some i)
    (h : Ok p calls first s i phase) : Ok p calls first t i phase := by
  have hlocks : Locks p calls s i → Locks p calls t i := fun hl hread => hholder (hl hread)
  have hprefix : s.log <+: t.log := hlog ▸ List.prefix_refl _
  have hnot : i ∉ s.log → i ∉ t.log := fun hi => hlog ▸ hi
  cases phase with
  | idle | waiting => exact hnot h
  | looking => exact ⟨hnot h.1, hlocks h.2⟩
  | inspected seen => exact ⟨hnot h.1, hlocks h.2.1, hlog ▸ h.2.2⟩
  | reading whole got =>
      obtain ⟨hni, hl, hgot, hsees, hsame⟩ := h
      exact ⟨hnot hni, hlocks hl, hgot, hsees.of_log hprefix hbegan, hfile ▸ hsame⟩
  | loaded file =>
      obtain ⟨hni, hl, hsees, hsame⟩ := h
      exact ⟨hnot hni, hlocks hl, hsees.of_log hprefix hbegan, hfile ▸ hsame⟩
  | writing payload written r => exact ⟨hnot h.1, hholder h.2.1, hfile ▸ h.2.2⟩
  | replaced r => exact ⟨hholder h.1, h.2.of_log hprefix hbegan⟩
  | ended r =>
      rcases h with h | ⟨hni, ⟨file, hsees, hplan⟩ | hchanged⟩
      · exact .inl (h.of_log hprefix hbegan)
      · exact .inr ⟨hnot hni, .inl ⟨file, hsees.of_log hprefix hbegan, hplan⟩⟩
      · exact .inr ⟨hnot hni, .inr hchanged⟩
  | failed => trivial

omit [DecidableEq ι] in
/-- Where another caller replaces the file, only readers are under way. -/
theorem Ok.replace {j : ι} {phase : Phase ρ β} {payload : List β} (hne : i ≠ j)
    (hholder : s.holder = some j) (h : Ok p calls first s i phase) :
    Ok p calls first (s.replace j payload) i phase := by
  have hmine : ¬ s.holder = some i := fun hi => hne (Option.some.inj (hi.symm.trans hholder))
  have hprefix : s.log <+: (s.replace j payload).log := List.prefix_append _ _
  have hnot : i ∉ s.log → i ∉ (s.replace j payload).log := fun hi => by
    simpa [State.replace, hne] using hi
  have hread : Locks p calls s i → p.isRead (calls i) = true := fun hl => by
    cases hread : p.isRead (calls i) with
    | false => exact absurd (hl hread) hmine
    | true => rfl
  have hlocks : Locks p calls s i → Locks p calls (s.replace j payload) i := fun hl hfalse => by
    simp [hread hl] at hfalse
  cases phase with
  | idle | waiting => exact hnot h
  | looking => exact ⟨hnot h.1, hlocks h.2⟩
  | inspected seen => exact ⟨hnot h.1, hlocks h.2.1, fun hfalse => by simp [hread h.2.1] at hfalse⟩
  | reading whole got =>
      obtain ⟨hni, hl, hgot, hsees, -⟩ := h
      exact ⟨hnot hni, hlocks hl, hgot, hsees.of_log hprefix rfl,
        fun hfalse => by simp [hread hl] at hfalse⟩
  | loaded file =>
      obtain ⟨hni, hl, hsees, -⟩ := h
      exact ⟨hnot hni, hlocks hl, hsees.of_log hprefix rfl,
        fun hfalse => by simp [hread hl] at hfalse⟩
  | writing payload written r => exact absurd h.2.1 hmine
  | replaced r => exact absurd h.1 hmine
  | ended r =>
      rcases h with h | ⟨hni, ⟨file, hsees, hplan⟩ | hchanged⟩
      · exact .inl (h.of_log hprefix rfl)
      · exact .inr ⟨hnot hni, .inl ⟨file, hsees.of_log hprefix rfl, hplan⟩⟩
      · exact .inr ⟨hnot hni, .inr hchanged⟩
  | failed => trivial

omit [DecidableEq ι] in
theorem invariant_start : Invariant p calls first (State.start (ι := ι) (ρ := ρ) first) where
  file := rfl
  nodup := List.nodup_nil
  began _ h := absurd rfl h
  ok _ := List.not_mem_nil

/-- A step of one caller that replaces no file. -/
theorem Invariant.move {phase : Phase ρ β} (h : Invariant p calls first s) (hfile : t.file = s.file)
    (hlog : t.log = s.log) (hphase : t.phase = Function.update s.phase i phase)
    (hother : ∀ j, j ≠ i → t.began j = s.began j ∧ (s.holder = some j → t.holder = some j))
    (hbegan : t.began i ≤ t.log.length) (hok : Ok p calls first t i phase) :
    Invariant p calls first t where
  file := by rw [hfile, hlog, h.file]
  nodup := by rw [hlog]; exact h.nodup
  began j hidle := by
    by_cases hj : j = i
    · exact hj ▸ hbegan
    · rw [hphase, Function.update_of_ne hj] at hidle
      rw [(hother j hj).1, hlog]
      exact h.began j hidle
  ok j := by
    by_cases hj : j = i
    · subst hj
      rw [hphase, Function.update_self]
      exact hok
    · rw [hphase, Function.update_of_ne hj]
      exact (h.ok j).frame hfile hlog (hother j hj).1 (hother j hj).2

theorem release_other {j : ι} (hj : j ≠ i) (h : s.holder = some j) :
    (s.release i).holder = some j := by
  rw [State.release, h, if_neg (by simpa using hj)]

theorem Invariant.step (h : Invariant p calls first s) (hstep : Step p calls s t) :
    Invariant p calls first t := by
  have hat : ∀ {i phase}, s.phase i = phase → Ok p calls first s i phase := fun {i phase} hi =>
    hi ▸ h.ok i
  have hkeeps : ∀ {i : ι} (phase : Phase ρ β), ∀ j, j ≠ i →
      (s.enter i phase).began j = s.began j ∧
        (s.holder = some j → (s.enter i phase).holder = some j) := fun _ _ _ => ⟨rfl, id⟩
  have hreleases : ∀ {i : ι} (phase : Phase ρ β), ∀ j, j ≠ i →
      ((s.release i).enter i phase).began j = s.began j ∧
        (s.holder = some j → ((s.release i).enter i phase).holder = some j) := fun _ _ hj =>
    ⟨rfl, release_other hj⟩
  have hbegins : ∀ {i : ι} (phase : Phase ρ β), ∀ j, j ≠ i →
      (s.begin i phase).began j = s.began j ∧
        (s.holder = some j → (s.begin i phase).holder = some j) := fun _ _ hj =>
    ⟨Function.update_of_ne hj _ _, id⟩
  cases hstep with
  | @refuses i r hi hrefuse =>
      have hbegan : (s.begin i (.ended r)).began i = s.log.length := Function.update_self _ _ _
      refine h.move rfl rfl rfl (hbegins _) (Nat.le_of_eq hbegan)
        (.inr ⟨hat hi, .inl ⟨s.file, ?_, ?_⟩⟩)
      · exact ⟨s.log.length, Nat.le_of_eq hbegan, Nat.le_refl _, by
          rw [show (s.begin i (.ended r)).log = s.log from rfl, List.take_length, h.file]⟩
      · exact p.plan_refuse _ _ _ hrefuse
  | @begins i hi hrefuse =>
      have hbegan : ∀ phase, (s.begin i phase).began i = s.log.length := fun phase =>
        Function.update_self _ _ _
      refine h.move rfl rfl rfl (hbegins _) (Nat.le_of_eq (hbegan _)) ?_
      split
      · rename_i hread
        exact ⟨hat hi, fun hfalse => by simp [hread] at hfalse⟩
      · exact hat hi
  | @locks i hi hfree =>
      refine h.move rfl rfl rfl (fun j hj => ⟨rfl, fun hj => ?_⟩) (h.began i (by simp [hi]))
        ⟨hat hi, fun _ => rfl⟩
      simp [hfree] at hj
  | @misses i hi hnone =>
      have hbegan := h.began i (by simp [hi])
      obtain ⟨hnot, hl⟩ := hat hi
      have hsees := Sees.now h hbegan
      rw [hnone] at hsees
      exact h.move rfl rfl rfl (hkeeps _) hbegan ⟨hnot, hl, hsees, fun _ => hnone⟩
  | @inspects i hi hsome =>
      obtain ⟨hnot, hl⟩ := hat hi
      exact h.move rfl rfl rfl (hkeeps _) (h.began i (by simp [hi])) ⟨hnot, hl, fun _ => rfl⟩
  | @opens i seen whole hi hfile =>
      have hbegan := h.began i (by simp [hi])
      obtain ⟨hnot, hl, -⟩ := hat hi
      have hsees := Sees.now h hbegan
      rw [hfile] at hsees
      exact h.move rfl rfl rfl (hkeeps _) hbegan
        ⟨hnot, hl, List.nil_prefix, hsees, fun _ => hfile⟩
  | @changes i seen hi hchanged =>
      obtain ⟨hnot, -, hseen⟩ := hat hi
      refine h.move rfl rfl rfl (hreleases _) (h.began i (by simp [hi]))
        (.inr ⟨hnot, .inr ⟨?_, rfl⟩⟩)
      cases hread : p.isRead (calls i) with
      | true => rfl
      | false => exact absurd (hseen hread).symm hchanged
  | @reads i whole got chunk hi hmore =>
      obtain ⟨hnot, hl, -, hsees, hsame⟩ := hat hi
      exact h.move rfl rfl rfl (hkeeps _) (h.began i (by simp [hi])) ⟨hnot, hl, hmore, hsees, hsame⟩
  | @loads i whole hi =>
      obtain ⟨hnot, hl, -, hsees, hsame⟩ := hat hi
      exact h.move rfl rfl rfl (hkeeps _) (h.began i (by simp [hi])) ⟨hnot, hl, hsees, hsame⟩
  | @answers i file r hi hplan =>
      obtain ⟨hnot, -, hsees, -⟩ := hat hi
      exact h.move rfl rfl rfl (hreleases _) (h.began i (by simp [hi]))
        (.inr ⟨hnot, .inl ⟨file, hsees, hplan⟩⟩)
  | @stages i file r payload hi hplan =>
      obtain ⟨hnot, hl, -, hsame⟩ := hat hi
      have hread := isRead_of_plan hplan
      exact h.move rfl rfl rfl (hkeeps _) (h.began i (by simp [hi]))
        ⟨hnot, hl hread, hsame hread ▸ hplan⟩
  | @writes i payload written r chunk hi hmore =>
      exact h.move rfl rfl rfl (hkeeps _) (h.began i (by simp [hi])) (hat hi)
  | @replaces i payload r hi =>
      obtain ⟨hnot, hholder, hplan⟩ := hat hi
      have hwrote : Wrote p calls first (s.replace i payload) i r := by
        refine ⟨s.log.length, payload, h.began i (by simp [hi]), ?_, ?_⟩
        · exact List.getElem?_concat_length
        · rw [show (s.replace i payload).log = s.log ++ [i] from rfl, List.take_left, ← h.file,
            hplan]
      refine ⟨?_, ?_, fun j hidle => ?_, fun j => ?_⟩
      · change some payload = valueAt p calls first (s.log ++ [i])
        rw [valueAt_concat, ← h.file, effect, hplan]
      · change (s.log ++ [i]).Nodup
        refine List.nodup_append.2 ⟨h.nodup, List.nodup_singleton i, fun j hj k hk hsame => ?_⟩
        obtain rfl := List.mem_singleton.1 hk
        exact hnot (hsame ▸ hj)
      · change s.began j ≤ (s.log ++ [i]).length
        rw [List.length_append]
        by_cases hj : j = i
        · subst hj
          have hle := h.began j (by simp [hi])
          omega
        · have hle := h.began j (by simpa [State.enter, State.replace, hj] using hidle)
          omega
      · by_cases hj : j = i
        · subst hj
          rw [show ((s.replace j payload).enter j (.replaced r)).phase j = .replaced r from
            Function.update_self _ _ _]
          exact ⟨hholder, hwrote⟩
        · rw [show ((s.replace i payload).enter i (.replaced r)).phase j = s.phase j from
            Function.update_of_ne hj _ _]
          exact ((h.ok j).replace hj hholder).frame rfl rfl rfl id
  | @returns i r hi =>
      obtain ⟨hholder, hwrote⟩ := hat hi
      exact h.move rfl rfl rfl (hreleases _) (h.began i (by simp [hi])) (.inl hwrote)
  | @fails i hidle hended =>
      exact h.move rfl rfl rfl (hreleases _) (h.began i hidle) trivial

theorem Invariant.run (h : Invariant p calls first s) (hrun : Run p calls s t) :
    Invariant p calls first t := by
  induction hrun with
  | refl => exact h
  | tail _ hstep ih => exact ih.step hstep

/-- The states of the callers' runs over a file that there is at first. -/
abbrev Reached (p : Calls κ ρ β) (calls : ι → κ) (first : Option (List β)) :=
  {s : State ι ρ β // Run p calls (State.start first) s}

theorem Reached.invariant (s : Reached p calls first) : Invariant p calls first s.1 :=
  invariant_start.run s.2

end

end LockedFile
