import Mathlib.Data.List.Induction
import Mathlib.Tactic.Common

namespace Lease
variable {κ ω τ : Type} [DecidableEq κ]

inductive Event (κ ω τ : Type) where
  | granted (k : κ) (holder : ω) (expiry : τ)
  | renewed (k : κ) (expiry : τ)
  | ended (k : κ)
deriving DecidableEq, Repr

@[ext]
structure Grant (ω τ : Type) where
  holder : ω
  expiry : τ
deriving DecidableEq, Repr

def Event.apply (k : κ) (grant : Option (Grant ω τ)) : Event κ ω τ → Option (Grant ω τ)
  | .granted l holder expiry => if l = k then some ⟨holder, expiry⟩ else grant
  | .renewed l expiry => if l = k then grant.map fun g => ⟨g.holder, expiry⟩ else grant
  | .ended l => if l = k then none else grant

def current (k : κ) (log : List (Event κ ω τ)) : Option (Grant ω τ) :=
  log.foldl (Event.apply k) none

def Event.turns (k : κ) : Event κ ω τ → Bool
  | .granted l _ _ => l = k
  | .renewed _ _ => false
  | .ended l => l = k

def Event.extend (k : κ) (expiry : τ) : Event κ ω τ → τ
  | .renewed l later => if l = k then later else expiry
  | _ => expiry

def extended (k : κ) (expiry : τ) (log : List (Event κ ω τ)) : τ :=
  log.foldl (Event.extend k) expiry

variable {k : κ} {log : List (Event κ ω τ)} {g : Grant ω τ}

theorem current_concat (e : Event κ ω τ) :
    current k (log ++ [e]) = e.apply k (current k log) := by simp [current]

theorem current_append (more : List (Event κ ω τ)) :
    current k (log ++ more) = more.foldl (Event.apply k) (current k log) := by simp [current]

theorem apply_of_not_turns {e : Event κ ω τ} {grant : Option (Grant ω τ)} (h : e.turns k = false) :
    e.apply k grant = grant.map fun g => ⟨g.holder, e.extend k g.expiry⟩ := by
  cases e with
  | granted l holder expiry =>
      have hne : ¬ l = k := by simpa [Event.turns] using h
      cases grant <;> simp [Event.apply, Event.extend, hne]
  | renewed l expiry =>
      by_cases hl : l = k <;> cases grant <;> simp [Event.apply, Event.extend, hl]
  | ended l =>
      have hne : ¬ l = k := by simpa [Event.turns] using h
      cases grant <;> simp [Event.apply, Event.extend, hne]

theorem current_some (h : current k log = some g) :
    ∃ before expiry after, log = before ++ .granted k g.holder expiry :: after ∧
      (∀ e ∈ after, e.turns k = false) ∧ g.expiry = extended k expiry after := by
  induction log using List.reverseRec generalizing g with
  | nil => simp [current] at h
  | append_singleton log e ih =>
      rw [current_concat] at h
      by_cases hturns : e.turns k = false
      · rw [apply_of_not_turns hturns, Option.map_eq_some_iff] at h
        obtain ⟨old, hold, rfl⟩ := h
        obtain ⟨before, expiry, after, rfl, hquiet, hexpiry⟩ := ih hold
        refine ⟨before, expiry, after ++ [e], by simp, ?_, ?_⟩
        · intro f hf
          rcases List.mem_append.1 hf with hf | hf
          · exact hquiet f hf
          · obtain rfl : f = e := by simpa using hf
            exact hturns
        · simp [extended, hexpiry]
      · cases e with
        | granted l holder expiry =>
            obtain rfl : l = k := by simpa [Event.turns] using hturns
            obtain rfl : (⟨holder, expiry⟩ : Grant ω τ) = g := by simpa [Event.apply] using h
            exact ⟨log, expiry, [], by simp, by simp, rfl⟩
        | renewed l expiry => simp [Event.turns] at hturns
        | ended l =>
            obtain rfl : l = k := by simpa [Event.turns] using hturns
            simp [Event.apply] at h

theorem granted_after_end {before after : List (Event κ ω τ)}
    (h : current k (before ++ .ended k :: after) = some g) :
    ∃ expiry, .granted k g.holder expiry ∈ after := by
  induction after using List.reverseRec generalizing g with
  | nil => simp [current, Event.apply] at h
  | append_singleton after e ih =>
      rw [← List.cons_append, ← List.append_assoc, current_concat] at h
      by_cases hturns : e.turns k = false
      · rw [apply_of_not_turns hturns, Option.map_eq_some_iff] at h
        obtain ⟨old, hold, rfl⟩ := h
        obtain ⟨expiry, hmem⟩ := ih hold
        exact ⟨expiry, List.mem_append_left _ hmem⟩
      · cases e with
        | granted l holder expiry =>
            obtain rfl : l = k := by simpa [Event.turns] using hturns
            obtain rfl : (⟨holder, expiry⟩ : Grant ω τ) = g := by simpa [Event.apply] using h
            exact ⟨expiry, by simp⟩
        | renewed l expiry => simp [Event.turns] at hturns
        | ended l =>
            obtain rfl : l = k := by simpa [Event.turns] using hturns
            simp [Event.apply] at h

end Lease
