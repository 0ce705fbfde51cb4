import Polaris.Memory.Rendering
import Polaris.Service.Submission

namespace Polaris
open PyJson SortedDict Journal

namespace MemoryBackend
variable {backend : MemoryBackend} {scope : MemoryScope} {m m' : MemoryStore} {charBudget : ℕ}
  {budget : Option ℕ}

/-- The number of writes to the whole database is the same, or no context is long enough to show
it. -/
def VersionUnseen (backend : MemoryBackend) (scope : MemoryScope) (charBudget : ℕ)
    (budget : Option ℕ) (m m' : MemoryStore) : Prop :=
  m.generation = m'.generation ∨
    ∀ n ∈ [m, m'], ¬ backend.FrameFits (backend.sessionSnapshot scope charBudget n) budget

theorem AgreeOn.entries (h : AgreeOn scope m m') :
    (backend.sessionSnapshot scope charBudget m).entries =
      (backend.sessionSnapshot scope charBudget m').entries := by
  simp only [sessionSnapshot, list, h.activeEntries]

theorem AgreeOn.hash (h : AgreeOn scope m m') :
    (backend.sessionSnapshot scope charBudget m).hash =
      (backend.sessionSnapshot scope charBudget m').hash :=
  congrArg backend.snapshotHash h.entries

theorem AgreeOn.snapshot (h : AgreeOn scope m m') (hversion : m.generation = m'.generation) :
    backend.sessionSnapshot scope charBudget m = backend.sessionSnapshot scope charBudget m' := by
  simp only [sessionSnapshot, list, h.activeEntries, hversion]

theorem AgreeOn.render_eq_iff (h : AgreeOn scope m m') :
    backend.renderWithin (backend.sessionSnapshot scope charBudget m) budget =
        backend.renderWithin (backend.sessionSnapshot scope charBudget m') budget ↔
      backend.VersionUnseen scope charBudget budget m m' := by
  constructor
  · intro hsame
    by_cases hfits : backend.FrameFits (backend.sessionSnapshot scope charBudget m) budget
    · exact .inl (version_of_renderWithin hfits hsame).2
    · refine .inr fun n hn => ?_
      rcases List.mem_pair.1 hn with rfl | rfl
      · exact hfits
      · exact fun hfits' => hfits (version_of_renderWithin hfits' hsame.symm).1
  · rintro (hversion | hunseen)
    · rw [h.snapshot hversion]
    · rw [renderWithin_of_not_fits (hunseen m (by simp)),
        renderWithin_of_not_fits (hunseen m' (by simp))]

end MemoryBackend

namespace AgentService
open MemoryBackend
variable {svc : AgentService} {sub : Submission} {scope : MemoryScope} {m m' : MemoryStore}
  {charBudget : ℕ} {budget : Option ℕ}

/-- What is made of a scope does not tell the two stores apart. -/
structure Isolated (svc : AgentService) (sub : Submission) (scope : MemoryScope) (charBudget : ℕ)
    (budget : Option ℕ) (m m' : MemoryStore) : Prop where
  entries : (svc.memory.sessionSnapshot scope charBudget m).entries =
    (svc.memory.sessionSnapshot scope charBudget m').entries
  hash : (svc.memory.sessionSnapshot scope charBudget m).hash =
    (svc.memory.sessionSnapshot scope charBudget m').hash
  context : svc.memory.renderWithin (svc.memory.sessionSnapshot scope charBudget m) budget =
    svc.memory.renderWithin (svc.memory.sessionSnapshot scope charBudget m') budget
  config : ∀ creator creator', svc.creator sub m = .ok creator → svc.creator sub m' = .ok creator' →
    stored creator.persistedConfig = stored creator'.persistedConfig

theorem memoryFor_agree_iff (hagree : AgreeOn scope m m') :
    svc.memoryFor scope m' = svc.memoryFor scope m ↔ svc.config.memory.enabled = false ∨
      svc.memory.VersionUnseen scope svc.config.memory.charBudget
        (some svc.config.memory.charBudget) m m' := by
  cases henabled : svc.config.memory.enabled with
  | false => simp [memoryFor, henabled]
  | true =>
      simp only [memoryFor, henabled, if_true, Prod.mk.injEq, Option.some.injEq, reduceCtorEq,
        false_or, hagree.hash, and_true]
      rw [← hagree.render_eq_iff]
      exact eq_comm

theorem config_agree_iff (hagree : AgreeOn scope m m')
    (hscope : svc.resolveMemoryScope sub.memoryScope sub.profileId sub.subjectKey = .ok scope)
    {creator : RunCreator} (hcreator : svc.creator sub m = .ok creator) :
    (∀ creator creator', svc.creator sub m = .ok creator → svc.creator sub m' = .ok creator' →
      stored creator.persistedConfig = stored creator'.persistedConfig) ↔
        svc.memoryFor scope m' = svc.memoryFor scope m := by
  obtain ⟨_, hresolved, hcontext, hhash, hall⟩ := creator_ok hcreator
  obtain rfl := Except.ok.inj (hresolved.symm.trans hscope)
  obtain ⟨creator', hcreator', hsame, hcontext', hhash'⟩ := hall m'
  constructor
  · intro hstored
    obtain ⟨hcontexts, hhashes⟩ := memory_of_stored_eq (hstored creator creator' hcreator hcreator')
    rw [hcontext, hcontext'] at hcontexts
    rw [hhash, hhash'] at hhashes
    exact Prod.ext hcontexts.symm hhashes.symm
  · intro hmemory c c' hc hc'
    obtain rfl := Except.ok.inj (hcreator.symm.trans hc)
    obtain rfl := Except.ok.inj (hcreator'.symm.trans hc')
    rw [hsame hmemory]

theorem isolated_iff (hagree : AgreeOn scope m m')
    (hscope : svc.resolveMemoryScope sub.memoryScope sub.profileId sub.subjectKey = .ok scope)
    (haccepted : ∃ creator, svc.creator sub m = .ok creator) :
    svc.Isolated sub scope charBudget budget m m' ↔
      svc.memory.VersionUnseen scope charBudget budget m m' ∧
        (svc.config.memory.enabled = false ∨ svc.memory.VersionUnseen scope
          svc.config.memory.charBudget (some svc.config.memory.charBudget) m m') := by
  obtain ⟨creator, hcreator⟩ := haccepted
  rw [← hagree.render_eq_iff, ← memoryFor_agree_iff hagree,
    ← config_agree_iff hagree hscope hcreator]
  exact ⟨fun h => ⟨h.context, h.config⟩, fun h => ⟨hagree.entries, hagree.hash, h.1, h.2⟩⟩

namespace Redelivered

theorem telegram_visible : isBlankText "telegram:7" = false := by decide

def reader : MemoryScope := Redelivered.scope ⟨"telegram:7", telegram_visible⟩

/-- The store after another user's note. -/
def written : MemoryStore := (service.memory.perform (clock 9) remembered start.memory).2

theorem agree : AgreeOn reader start.memory written := by
  have hentries : written.entries.map MemoryEntry.id = ["55555555555555555555555555555555"] ∧
      reader ∉ written.entries.map MemoryEntry.scope := by
    decide +kernel
  refine ⟨by simp [start], by simp [hentries.1], fun e hscope => ?_⟩
  refine iff_of_false (by simp [start]) fun he => hentries.2 ?_
  exact List.mem_map.2 ⟨e, he, hscope⟩

theorem accepted : ∃ creator, service.creator submission start.memory = .ok creator := ⟨_, rfl⟩

end Redelivered

theorem isolated_iff_redelivered :
    Redelivered.service.Isolated Redelivered.submission Redelivered.reader 12000 none
        Redelivered.start.memory Redelivered.written ↔
      Redelivered.service.memory.VersionUnseen Redelivered.reader 12000 none
          Redelivered.start.memory Redelivered.written ∧
        (Redelivered.service.config.memory.enabled = false ∨
          Redelivered.service.memory.VersionUnseen Redelivered.reader
            Redelivered.service.config.memory.charBudget
            (some Redelivered.service.config.memory.charBudget) Redelivered.start.memory
            Redelivered.written) :=
  isolated_iff Redelivered.agree rfl Redelivered.accepted

theorem not_every_scope_isolated : ¬ ∀ (svc : AgentService) (sub : Submission) (scope : MemoryScope)
    (charBudget : ℕ) (budget : Option ℕ) (m m' : MemoryStore), AgreeOn scope m m' →
    svc.resolveMemoryScope sub.memoryScope sub.profileId sub.subjectKey = .ok scope →
    svc.Isolated sub scope charBudget budget m m' := by
  intro h
  have hsame := (h Redelivered.service Redelivered.submission Redelivered.reader 12000 none _ _
    Redelivered.agree rfl).context
  rcases Redelivered.agree.render_eq_iff.1 hsame with hversion | hunseen
  · exact absurd hversion (by decide +kernel)
  · exact hunseen _ (List.mem_cons_self ..) fun _ hnone => (nomatch hnone)

end AgentService

end Polaris
