import Polaris.Memory.Rendering

namespace Polaris
open PyJson

namespace MemoryBackend

section
variable (backend : MemoryBackend)

/-- The entries whose lines a block shows. -/
def shownEntries (budget : ℕ) : ℕ → List MemoryEntry → List MemoryEntry
  | _, [] => []
  | size, entry :: entries =>
      let line := backend.contextLine entry
      if budget < size + line.length then []
      else entry :: shownEntries budget (size + line.length) entries

def shownWithin (snapshot : MemorySnapshot) : Option ℕ → List MemoryEntry
  | some budget =>
      let size := (backend.contextHeader snapshot).length + contextFooter.length
      if budget < size then [] else backend.shownEntries budget size snapshot.entries
  | none => snapshot.entries

/-- The block of the header, the lines of the entries and the closing fence. -/
def contextBlock (snapshot : MemorySnapshot) (shown : List MemoryEntry) : String :=
  backend.contextHeader snapshot ++
    shown.foldr (fun entry rest => backend.contextLine entry ++ rest) "" ++ contextFooter

end

variable {backend : MemoryBackend} {snapshot : MemorySnapshot} {budget : Option ℕ}

theorem contextLines_eq {chars size : ℕ} {entries : List MemoryEntry} :
    backend.contextLines chars size entries = (backend.shownEntries chars size entries).foldr
      (fun entry rest => backend.contextLine entry ++ rest) "" := by
  induction entries generalizing size with
  | nil => rfl
  | cons entry entries ih =>
      simp only [contextLines, shownEntries]
      split
      · rfl
      · rw [List.foldr_cons, ih]

theorem shownEntries_prefix {chars size : ℕ} {entries : List MemoryEntry} :
    backend.shownEntries chars size entries <+: entries := by
  induction entries generalizing size with
  | nil => exact List.prefix_rfl
  | cons entry entries ih =>
      simp only [shownEntries]
      split
      · exact List.nil_prefix
      · exact List.cons_prefix_cons.2 ⟨rfl, ih⟩

theorem shownWithin_prefix : backend.shownWithin snapshot budget <+: snapshot.entries := by
  cases budget with
  | none => exact List.prefix_rfl
  | some chars =>
      simp only [shownWithin]
      split
      · exact List.nil_prefix
      · exact shownEntries_prefix

/-- A rendering whose frame fits is the block of the entries that it shows. -/
theorem renderWithin_of_fits (h : backend.FrameFits snapshot budget) :
    backend.renderWithin snapshot budget =
      backend.contextBlock snapshot (backend.shownWithin snapshot budget) := by
  cases budget with
  | none => rfl
  | some chars =>
      have hframed : (backend.contextHeader snapshot).length + contextFooter.length ≤ chars :=
        h chars rfl
      have hshort := @contextLines_fits backend _ _ snapshot.entries hframed
      rw [contextBlock, shownWithin, if_neg (by omega), ← contextLines_eq, renderWithin,
        renderPromptContext, if_neg]
      simp only [String.length_append] at hshort ⊢
      omega

theorem shownWithin_of_not_fits (h : ¬ backend.FrameFits snapshot budget) :
    backend.shownWithin snapshot budget = [] := by
  cases budget with
  | none => exact absurd (fun _ hnone => (nomatch hnone)) h
  | some chars =>
      refine if_pos (Nat.lt_of_not_le fun hframed => h ?_)
      rintro _ ⟨⟩
      exact hframed

end MemoryBackend

end Polaris
