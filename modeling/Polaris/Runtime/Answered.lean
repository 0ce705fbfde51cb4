import Polaris.Runtime.System

namespace Polaris

/-- Answers to all that a program asks, each at a time told by the events recorded so far. -/
structure Answers where
  clock : ℕ → Ambient
  execute : String → JsonObject → Except PyError PyJson.PyVal
  reconcile : String → JsonObject → Except PyError PyJson.PyVal
  complete : List Message → Except PyError CompletionResult
  definitions : List PyJson.PyVal

def AgentCall.answer (sha : Sha256) (s : Answers) {β : Type} :
    AgentCall β → World → Except PyError β × World
  | .journal op, w =>
      ((op.perform sha (s.clock w.journal.events.length) w.journal).1,
        w.withJournal (op.perform sha (s.clock w.journal.events.length) w.journal).2)
  | .execute stepId name arguments, w =>
      (s.execute name arguments, { w with executions := stepId :: w.executions })
  | .reconcile name arguments, w => (s.reconcile name arguments, w)
  | .complete _ messages _, w => (s.complete messages, w)
  | .getDefinitions, w => (.ok s.definitions, w)
  | .estimateCost _, w => (.ok 0, w)
  | .leaseFailure _, w => (.ok none, w)

namespace Agent
variable {α : Type}

def answered (sha : Sha256) (s : Answers) : Agent α → World → Except PyError α × World
  | .done r, w => (r, w)
  | .call e k, w => answered sha s (k (e.answer sha s w).1) (e.answer sha s w).2

variable {sha : Sha256} {s : Answers} {runId : String}

theorem exec_answer {β : Type} (e : AgentCall β) (w : World) :
    e.exec sha w (e.answer sha s w).1 (e.answer sha s w).2 := by
  cases e with
  | journal op => exact ⟨s.clock w.journal.events.length, rfl, rfl⟩
  | execute => exact ⟨rfl, rfl⟩
  | _ => rfl

theorem runs_answered (p : Agent α) (w : World) :
    Program.Runs (agentSystem sha runId) p w (answered sha s p w).1 (answered sha s p w).2 := by
  induction p generalizing w with
  | done r => exact .done
  | call e k ih => exact .call (exec_answer e w) (ih _ _)

theorem runs_of_answered {p : Agent α} {w : World} {b : α}
    (h : (answered sha s p w).1.toOption = some b) :
    ∃ w', Program.Runs (agentSystem sha runId) p w (.ok b) w' := by
  have hruns := @runs_answered _ sha s runId p w
  refine ⟨(answered sha s p w).2, ?_⟩
  generalize answered sha s p w = q at h hruns ⊢
  obtain ⟨_ | c, w'⟩ := q
  · simp [Except.toOption] at h
  · obtain rfl : c = b := by simpa [Except.toOption] using h
    exact hruns

end Agent

end Polaris
