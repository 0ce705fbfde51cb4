import Mathlib.Data.List.Nodup
import Mathlib.Tactic.Common
import Polaris.Library.Program

/-! Tasks that are carried out by writes: the items of a task are put in place, each unless its key
is taken, and then the task is marked. Whoever is stopped between two writes starts over. -/

namespace OnceEach

structure Task (κ α μ β : Type) where
  items : List (κ × α)
  mark : μ × β

structure State (κ α μ β : Type) where
  items : List (κ × α)
  marks : List (μ × β)

inductive Write (κ α μ β : Type) where
  | put (item : κ × α)
  | mark (m : μ × β)

variable {κ α μ β : Type}

def Task.writes (task : Task κ α μ β) : List (Write κ α μ β) :=
  task.items.map .put ++ [.mark task.mark]

namespace State
variable {s s' : State κ α μ β} {tasks : List (Task κ α μ β)} {task : Task κ α μ β}
  {ws ws' : List (Write κ α μ β)} {item : κ × α}

section
variable [DecidableEq κ]

def put (s : State κ α μ β) (item : κ × α) : State κ α μ β :=
  if item.1 ∈ s.items.map Prod.fst then s else { s with items := s.items ++ [item] }

def apply (s : State κ α μ β) : Write κ α μ β → State κ α μ β
  | .put item => s.put item
  | .mark m => { s with marks := s.marks ++ [m] }

def run (s : State κ α μ β) (ws : List (Write κ α μ β)) : State κ α μ β := ws.foldl apply s

@[simp] theorem run_nil : s.run [] = s := rfl

@[simp] theorem run_cons {w : Write κ α μ β} : s.run (w :: ws) = (s.apply w).run ws := rfl

theorem run_append : s.run (ws ++ ws') = (s.run ws).run ws' := List.foldl_append

@[simp] theorem put_marks : (s.put item).marks = s.marks := by
  unfold put
  split <;> rfl

theorem mem_put : item.1 ∈ (s.put item).items.map Prod.fst := by
  unfold put
  split
  · assumption
  · simp

theorem put_of_mem (h : item.1 ∈ s.items.map Prod.fst) : s.put item = s := if_pos h

theorem subset_put (k : κ) (h : k ∈ s.items.map Prod.fst) : k ∈ (s.put item).items.map Prod.fst := by
  unfold put
  split
  · exact h
  · rw [List.map_append]
    exact List.mem_append_left _ h

theorem run_puts_marks (items : List (κ × α)) : (s.run (items.map .put)).marks = s.marks := by
  induction items generalizing s with
  | nil => rfl
  | cons item items ih => exact ih.trans put_marks

theorem subset_run_puts (items : List (κ × α)) (k : κ) (h : k ∈ s.items.map Prod.fst) :
    k ∈ (s.run (items.map .put)).items.map Prod.fst := by
  induction items generalizing s with
  | nil => exact h
  | cons item items ih => exact ih (subset_put k h)

theorem mem_run_puts {items : List (κ × α)} :
    ∀ item ∈ items, item.1 ∈ (s.run (items.map .put)).items.map Prod.fst := by
  induction items generalizing s with
  | nil => simp
  | cons item items ih =>
      refine List.forall_mem_cons.2 ⟨?_, fun other hother => ih other hother⟩
      exact subset_run_puts items _ mem_put

theorem run_puts_of_mem {items : List (κ × α)}
    (h : ∀ item ∈ items, item.1 ∈ s.items.map Prod.fst) : s.run (items.map .put) = s := by
  induction items with
  | nil => rfl
  | cons item items ih =>
      obtain ⟨hitem, hitems⟩ := List.forall_mem_cons.1 h
      rw [List.map_cons, run_cons, apply, put_of_mem hitem]
      exact ih hitems

/-- Items that are put in place again, after some of them have been, end up where they would have. -/
theorem run_puts_again (items : List (κ × α)) (k : ℕ) :
    (s.run ((items.take k).map .put)).run (items.map .put) = s.run (items.map .put) := by
  have hsplit : items.map (@Write.put κ α μ β) =
      (items.take k).map .put ++ (items.drop k).map .put := by
    rw [← List.map_append, List.take_append_drop]
  rw [hsplit, run_append, run_puts_of_mem mem_run_puts, run_append]

theorem run_puts_items (items : List (κ × α)) (h : s.items = s'.items) :
    (s.run (items.map .put)).items = (s'.run (items.map .put)).items := by
  induction items generalizing s s' with
  | nil => exact h
  | cons item items ih =>
      refine ih ?_
      simp only [apply, put, h]
      split
      · exact h
      · rfl

/-- Of items with keys of their own, those are put in place whose keys are free. -/
theorem run_puts_fresh {items : List (κ × α)} (h : (items.map Prod.fst).Nodup) :
    (s.run (items.map .put)).items =
      s.items ++ items.filter fun item => item.1 ∉ s.items.map Prod.fst := by
  induction items generalizing s with
  | nil => simp
  | cons item items ih =>
      obtain ⟨hfirst, hrest⟩ := List.nodup_cons.1 h
      rw [List.map_cons, run_cons, ih hrest, List.filter_cons]
      by_cases htaken : item.1 ∈ s.items.map Prod.fst
      · rw [apply, put_of_mem htaken, if_neg (by simpa using htaken)]
      · have hothers : ∀ other ∈ items, other.1 ≠ item.1 := fun other hother heq =>
          hfirst (heq ▸ List.mem_map_of_mem hother)
        simp only [apply, put, if_neg htaken, List.append_assoc]
        congr 1
        simp only [htaken, not_false_eq_true, decide_true, if_true, List.map_append,
          List.map_cons, List.map_nil, List.mem_append, List.mem_singleton]
        rw [List.singleton_append]
        congr 1
        exact List.filter_congr fun other hother => by simp [hothers other hother]

/-- What a run has put in place was there, or it is one of its writes. -/
theorem mem_run_items (h : item ∈ (s.run ws).items) : item ∈ s.items ∨ .put item ∈ ws := by
  induction ws generalizing s with
  | nil => exact .inl h
  | cons w ws ih =>
      rcases ih h with hitem | hput
      · cases w with
        | put other =>
            simp only [apply, put] at hitem
            split at hitem
            · exact .inl hitem
            · rcases List.mem_append.1 hitem with hitem | hitem
              · exact .inl hitem
              · exact .inr (List.mem_singleton.1 hitem ▸ List.mem_cons_self)
        | mark m => exact .inl hitem
      · exact .inr (List.mem_cons_of_mem _ hput)

/-- What is in place under the key of an item is as good as the item. -/
def Agrees (R : α → α → Prop) (s : State κ α μ β) (items : List (κ × α)) : Prop :=
  ∀ item ∈ items, ∀ held ∈ s.items, held.1 = item.1 → R held.2 item.2

theorem Agrees.put {R : α → α → Prop} {items : List (κ × α)} (h : s.Agrees R items)
    (hrefl : ∀ a, R a a) (hkeys : (items.map Prod.fst).Nodup) (hitem : item ∈ items) :
    (s.put item).Agrees R items := by
  intro other hother held hheld hkey
  unfold State.put at hheld
  split at hheld
  · exact h other hother held hheld hkey
  · rcases List.mem_append.1 hheld with hheld | hheld
    · exact h other hother held hheld hkey
    · obtain rfl := List.mem_singleton.1 hheld
      obtain rfl : held = other := List.inj_on_of_nodup_map hkeys hitem hother hkey
      exact hrefl _

theorem Agrees.run {R : α → α → Prop} {items : List (κ × α)} (h : s.Agrees R items)
    (hrefl : ∀ a, R a a) (hkeys : (items.map Prod.fst).Nodup)
    (hws : ∀ item, .put item ∈ ws → item ∈ items) : (s.run ws).Agrees R items := by
  induction ws generalizing s with
  | nil => exact h
  | cons w ws ih =>
      refine ih ?_ fun item hitem => hws item (List.mem_cons_of_mem _ hitem)
      cases w with
      | put item => exact h.put hrefl hkeys (hws item List.mem_cons_self)
      | mark m => exact h

theorem run_writes_marks : (s.run task.writes).marks = s.marks ++ [task.mark] := by
  rw [Task.writes, run_append]
  simp only [run_cons, run_nil, apply, run_puts_marks]

theorem run_writes_items :
    (s.run task.writes).items = (s.run (task.items.map .put)).items := by
  rw [Task.writes, run_append]
  rfl

end

section
variable [DecidableEq μ]

def isMarked (s : State κ α μ β) (task : Task κ α μ β) : Bool := task.mark.1 ∈ s.marks.map Prod.fst

/-- What is left to write for the tasks. -/
def pending (s : State κ α μ β) (tasks : List (Task κ α μ β)) : List (Write κ α μ β) :=
  tasks.flatMap fun task => if s.isMarked task then [] else task.writes

def due (s : State κ α μ β) (tasks : List (Task κ α μ β)) : List (Task κ α μ β) :=
  tasks.filter (!s.isMarked ·)

theorem pending_cons : s.pending (task :: tasks) =
    (if s.isMarked task then [] else task.writes) ++ s.pending tasks := List.flatMap_cons

theorem pending_singleton : s.pending [task] = if s.isMarked task then [] else task.writes := by
  simp [pending]

theorem due_singleton : s.due [task] = if s.isMarked task then [] else [task] := by
  cases h : s.isMarked task <;> simp [due, h]

theorem pending_append {tasks' : List (Task κ α μ β)} :
    s.pending (tasks ++ tasks') = s.pending tasks ++ s.pending tasks' := List.flatMap_append

theorem due_append {tasks' : List (Task κ α μ β)} :
    s.due (tasks ++ tasks') = s.due tasks ++ s.due tasks' := List.filter_append ..

theorem pending_eq_due : s.pending tasks = (s.due tasks).flatMap Task.writes := by
  induction tasks with
  | nil => rfl
  | cons task tasks ih =>
      rw [pending_cons, ih]
      simp only [due, List.filter_cons]
      cases hmarked : s.isMarked task <;> simp

theorem pending_congr (h : ∀ task ∈ tasks, s'.isMarked task = s.isMarked task) :
    s'.pending tasks = s.pending tasks :=
  List.flatMap_congr fun task htask => by rw [h task htask]

theorem due_congr (h : ∀ task ∈ tasks, s'.isMarked task = s.isMarked task) :
    s'.due tasks = s.due tasks :=
  List.filter_congr fun task htask => by rw [h task htask]

theorem pending_of_marks (h : s'.marks = s.marks) : s'.pending tasks = s.pending tasks :=
  pending_congr fun task _ => by rw [isMarked, isMarked, h]

end

variable [DecidableEq κ] [DecidableEq μ]

theorem isMarked_run (h : s.isMarked task = true) : (s.run ws).isMarked task = true := by
  induction ws generalizing s with
  | nil => exact h
  | cons w ws ih =>
      refine ih ?_
      cases w with
      | put item => rwa [isMarked, apply, put_marks]
      | mark m =>
          simp only [isMarked, apply, List.map_append, decide_eq_true_eq] at h ⊢
          exact List.mem_append_left _ h

theorem isMarked_run_writes (task' : Task κ α μ β) : (s.run task.writes).isMarked task' =
    (s.isMarked task' || decide (task'.mark.1 = task.mark.1)) := by
  simp only [isMarked, run_writes_marks, List.map_append, List.map_cons, List.map_nil,
    List.mem_append, List.mem_singleton, Bool.decide_or]

/-- The writes of one task leave what is pending for the others. -/
theorem isMarked_after_writes (h : task.mark.1 ∉ tasks.map fun t => t.mark.1) :
    ∀ task' ∈ tasks, (s.run task.writes).isMarked task' = s.isMarked task' := by
  intro task' htask'
  have hne : task'.mark.1 ≠ task.mark.1 := fun heq =>
    h (heq ▸ List.mem_map_of_mem (f := fun t : Task κ α μ β => t.mark.1) htask')
  rw [isMarked_run_writes]
  simp [hne]

theorem run_writes_marked : (s.run task.writes).isMarked task = true := by simp [isMarked_run_writes]

/-- A run that is stopped after any number of writes, and then starts over, ends where a run does
that is not stopped. -/
theorem run_resumed (h : (tasks.map fun t => t.mark.1).Nodup) (k : ℕ) :
    (s.run ((s.pending tasks).take k)).run ((s.run ((s.pending tasks).take k)).pending tasks) =
      s.run (s.pending tasks) := by
  induction tasks generalizing s k with
  | nil => simp [pending]
  | cons task tasks ih =>
      obtain ⟨hfirst, hrest⟩ := List.nodup_cons.1 h
      rw [pending_cons]
      by_cases hmarked : s.isMarked task = true
      · rw [if_pos hmarked, List.nil_append, pending_cons, if_pos (isMarked_run hmarked),
          List.nil_append]
        exact ih hrest k
      · rw [if_neg hmarked]
        rcases Nat.lt_or_ge k task.writes.length with hinside | hbeyond
        · -- stopped within the first task, whose mark is its last write
          have hlength : k ≤ task.items.length := by
            simpa [Task.writes, Nat.lt_succ_iff] using hinside
          have htake : (task.writes ++ s.pending tasks).take k = (task.items.take k).map .put := by
            rw [List.take_append_of_le_length (Nat.le_of_lt hinside), Task.writes,
              List.take_append_of_le_length (by simpa using hlength), List.map_take]
          have hmarks := @run_puts_marks _ _ _ _ s _ (task.items.take k)
          have hunmarked : (s.run ((task.items.take k).map .put)).isMarked task = s.isMarked task := by
            rw [isMarked, isMarked, hmarks]
          rw [htake, pending_cons, hunmarked, if_neg hmarked, pending_of_marks hmarks, run_append,
            run_append]
          congr 1
          rw [Task.writes, run_append, run_append, run_puts_again]
        · have hsame := @isMarked_after_writes _ _ _ _ s _ _ _ _ hfirst
          have hresumed := @ih (s.run task.writes) hrest (k - task.writes.length)
          rw [pending_congr hsame] at hresumed
          rw [List.take_append, List.take_of_length_le hbeyond, run_append, pending_cons,
            if_pos (isMarked_run run_writes_marked), List.nil_append, hresumed, run_append]

/-- What a run that is not stopped leaves behind. -/
theorem run_pending (h : (tasks.map fun t => t.mark.1).Nodup) :
    (s.run (s.pending tasks)).marks = s.marks ++ (s.due tasks).map Task.mark ∧
      (s.run (s.pending tasks)).items =
        (s.run (((s.due tasks).flatMap Task.items).map .put)).items := by
  induction tasks generalizing s with
  | nil => exact ⟨(List.append_nil _).symm, rfl⟩
  | cons task tasks ih =>
      obtain ⟨hfirst, hrest⟩ := List.nodup_cons.1 h
      rw [pending_cons, due, List.filter_cons]
      by_cases hmarked : s.isMarked task = true
      · simpa [hmarked, due] using ih hrest
      · have hsame := @isMarked_after_writes _ _ _ _ s _ _ _ _ hfirst
        obtain ⟨hmarks, hitems⟩ := @ih (s.run task.writes) hrest
        rw [pending_congr hsame, due_congr hsame] at hmarks hitems
        rw [if_neg hmarked, if_pos (by simpa using hmarked), run_append, hmarks, hitems,
          run_writes_marks, List.flatMap_cons, List.map_append, run_append, List.map_cons]
        exact ⟨by simp [due], run_puts_items _ run_writes_items⟩

/-- What is written for some tasks leaves the others as they were. -/
theorem isMarked_run_pending {tasks' : List (Task κ α μ β)}
    (h : ((tasks ++ tasks').map fun t => t.mark.1).Nodup) :
    ∀ task ∈ tasks', (s.run (s.pending tasks)).isMarked task = s.isMarked task := by
  intro task htask
  rw [List.map_append, List.nodup_append] at h
  obtain ⟨htasks, -, hapart⟩ := h
  have hother : task.mark.1 ∉ ((s.due tasks).map Task.mark).map Prod.fst := by
    intro hmem
    rw [List.map_map] at hmem
    obtain ⟨done, hdone, hsame⟩ := List.mem_map.1 hmem
    exact hapart _ (List.mem_map_of_mem (f := fun t : Task κ α μ β => t.mark.1)
      (List.mem_of_mem_filter hdone)) _
      (List.mem_map_of_mem (f := fun t : Task κ α μ β => t.mark.1) htask) hsame
  rw [State.isMarked, State.isMarked, (run_pending htasks).1, List.map_append]
  simp only [List.mem_append, hother, or_false]

theorem run_pending_marked (h : (tasks.map fun t => t.mark.1).Nodup) :
    (s.run (s.pending tasks)).due tasks = [] := by
  rw [due, List.filter_eq_nil_iff]
  intro task htask
  rw [isMarked, (run_pending h).1]
  by_cases hmarked : s.isMarked task = true
  · simp only [isMarked, decide_eq_true_eq] at hmarked
    simp [hmarked]
  · have hdue : task ∈ s.due tasks := List.mem_filter.2 ⟨htask, by simpa using hmarked⟩
    simp only [List.map_append, List.mem_append, Bool.not_eq_true', decide_eq_false_iff_not, not_not]
    exact .inr (List.mem_map_of_mem (List.mem_map_of_mem hdue))

end State

open Program

/-- What is seen of a world: its tables, what has been looked at, and what nobody changes. -/
structure View (W κ α μ β ν φ : Type) where
  state : W → State κ α μ β
  log : W → List ν
  frame : W → φ

/-- The program makes these writes, one after the other, looks at these things, and ends with this
result. -/
structure Carries {E : Type → Type} {ε W γ ν φ : Type} [DecidableEq κ] (S : System E ε W)
    (view : View W κ α μ β ν φ) (p : Program E ε γ) (w : W) (r : Except ε γ)
    (ws : List (Write κ α μ β)) (vs : List ν) : Prop where
  runs : ∀ {q w'}, Runs S p w q w' → q = r ∧ view.state w' = (view.state w).run ws ∧
    view.log w' = view.log w ++ vs ∧ view.frame w' = view.frame w
  halts : ∀ {w'}, Halts S p w w' →
    (∃ k, view.state w' = (view.state w).run (ws.take k)) ∧ view.frame w' = view.frame w

section
variable {E : Type → Type} {ε W γ δ ν φ : Type} [DecidableEq κ] {S : System E ε W}
  {view : View W κ α μ β ν φ} {w : W} {ws ws' : List (Write κ α μ β)} {vs vs' : List ν}

theorem carries_done {r : Except ε γ} : Carries S view (.done r) w r [] [] where
  runs h := by
    obtain ⟨rfl, rfl⟩ := runs_done.1 h
    exact ⟨rfl, rfl, (List.append_nil _).symm, rfl⟩
  halts h := by
    obtain rfl := halts_done.1 h
    exact ⟨⟨0, rfl⟩, rfl⟩

theorem Carries.bind {p : Program E ε γ} {f : γ → Program E ε δ} {a : γ} {r : Except ε δ}
    (hp : Carries S view p w (.ok a) ws vs)
    (hf : ∀ w', Runs S p w (.ok a) w' → Carries S view (f a) w' r ws' vs') :
    Carries S view (p >>= f) w r (ws ++ ws') (vs ++ vs') where
  runs h := by
    rcases runs_bind.1 h with ⟨b, v, hfirst, hrest⟩ | ⟨e, -, hfirst⟩
    · obtain ⟨hb, hstate, hlog, hframe⟩ := hp.runs hfirst
      obtain rfl := Except.ok.inj hb
      obtain ⟨rfl, hstate', hlog', hframe'⟩ := (hf v hfirst).runs hrest
      refine ⟨rfl, ?_, ?_, hframe'.trans hframe⟩
      · rw [hstate', hstate, State.run_append]
      · rw [hlog', hlog, List.append_assoc]
    · cases (hp.runs hfirst).1
  halts h := by
    rcases halts_bind.1 h with hfirst | ⟨b, v, hfirst, hrest⟩
    · obtain ⟨⟨k, hstate⟩, hframe⟩ := hp.halts hfirst
      refine ⟨⟨min k ws.length, ?_⟩, hframe⟩
      rw [hstate, List.take_append_of_le_length (Nat.min_le_right _ _), ← List.take_eq_take_min]
    · obtain ⟨hb, hstate, -, hframe⟩ := hp.runs hfirst
      obtain rfl := Except.ok.inj hb
      obtain ⟨⟨k, hstate'⟩, hframe'⟩ := (hf v hfirst).halts hrest
      refine ⟨⟨ws.length + k, ?_⟩, hframe'.trans hframe⟩
      rw [hstate', hstate, List.take_length_add_append, State.run_append]

/-- One call, whatever it answers. -/
theorem carries_perform_bind {e : E γ} {f : γ → Program E ε δ} {r : Except ε δ}
    (h : ∀ q w', S.exec e w q w' → ∃ a, q = .ok a ∧ view.state w' = (view.state w).run ws ∧
      view.log w' = view.log w ++ vs ∧ view.frame w' = view.frame w ∧
      Carries S view (f a) w' r ws' vs') :
    Carries S view (perform e >>= f) w r (ws ++ ws') (vs ++ vs') where
  runs hruns := by
    rcases runs_bind.1 hruns with ⟨b, v, hfirst, hrest⟩ | ⟨error, -, hfirst⟩
    · obtain ⟨a, hb, hstate, hlog, hframe, hcarries⟩ := h _ _ (runs_perform.1 hfirst)
      obtain rfl := Except.ok.inj hb
      obtain ⟨rfl, hstate', hlog', hframe'⟩ := hcarries.runs hrest
      refine ⟨rfl, ?_, ?_, hframe'.trans hframe⟩
      · rw [hstate', hstate, State.run_append]
      · rw [hlog', hlog, List.append_assoc]
    · obtain ⟨a, hfails, -⟩ := h _ _ (runs_perform.1 hfirst)
      cases hfails
  halts hhalts := by
    rcases halts_bind.1 hhalts with hfirst | ⟨b, v, hfirst, hrest⟩
    · rcases halts_perform.1 hfirst with rfl | ⟨q, hexec⟩
      · exact ⟨⟨0, rfl⟩, rfl⟩
      · obtain ⟨a, -, hstate, -, hframe, -⟩ := h _ _ hexec
        exact ⟨⟨ws.length, by rw [hstate, List.take_left]⟩, hframe⟩
    · obtain ⟨a, hb, hstate, -, hframe, hcarries⟩ := h _ _ (runs_perform.1 hfirst)
      obtain rfl := Except.ok.inj hb
      obtain ⟨⟨k, hstate'⟩, hframe'⟩ := hcarries.halts hrest
      refine ⟨⟨ws.length + k, ?_⟩, hframe'.trans hframe⟩
      rw [hstate', hstate, List.take_length_add_append, State.run_append]

/-- One call that writes nothing. -/
theorem carries_read_bind {e : E γ} {f : γ → Program E ε δ} {r : Except ε δ}
    (h : ∀ q w', S.exec e w q w' → ∃ a, q = .ok a ∧ view.state w' = view.state w ∧
      view.log w' = view.log w ++ vs ∧ view.frame w' = view.frame w ∧
      Carries S view (f a) w' r ws' vs') :
    Carries S view (perform e >>= f) w r ws' (vs ++ vs') := by
  change Carries S view _ w r ([] ++ ws') _
  exact carries_perform_bind h

end

end OnceEach
