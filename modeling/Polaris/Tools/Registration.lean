import Polaris.Library.Transaction
import Polaris.Tools.Registry

namespace Polaris
open PyJson SortedDict

structure LiveRegistry extends ToolRegistry where
  generation : ℕ
deriving DecidableEq

namespace LiveRegistry

abbrev Op (α : Type) := Txn PyError LiveRegistry α

def empty : LiveRegistry := ⟨⟨[], []⟩, 0⟩

def duplicateError (message : String) : PyError := ⟨.other "DuplicateToolError", message⟩

def toolName : PyVal → Except PyError String
  | .str s =>
      if isBlankText s then .error (typeError "tool names must be non-empty strings")
      else .ok (pyStrip s)
  | _ => .error (typeError "tool names must be non-empty strings")

def isOccupied (tools : LiveRegistry) (name : String) : Bool :=
  (lookup name tools.entries).isSome || (lookup name tools.aliases).isSome

/-- What `register` looks at before it changes anything. -/
def admission (entry : ToolEntry) (aliasNames : List PyVal) (override : Bool) :
    Op (String × List String) := do
  let canonical ← Txn.lift (toolName (.str entry.name))
  let normalized ← Txn.lift (aliasNames.mapM toolName)
  Txn.require (canonical ∉ normalized && normalized.Nodup)
    (duplicateError ("duplicate alias for tool " ++ Journal.pyRepr canonical))
  let collision ← Txn.read fun tools => (canonical :: normalized).find? tools.isOccupied
  let isAlias ← Txn.read fun tools => (lookup canonical tools.aliases).isSome
  match override, collision with
  | false, some name =>
      Txn.fail (duplicateError ("tool name or alias already registered: " ++ Journal.pyRepr name))
  | false, none => return (canonical, normalized)
  | true, _ => do
      Txn.require (!isAlias)
        (duplicateError ("cannot override alias with tool: " ++ Journal.pyRepr canonical))
      return (canonical, normalized)

def dropAliases (canonical : String) (tools : LiveRegistry) : LiveRegistry :=
  if (lookup canonical tools.entries).isSome then
    { tools with aliases := tools.aliases.filter fun a => a.2 ≠ canonical }
  else tools

def requireFree (canonical : String) : List String → Op Unit
  | [] => return ()
  | name :: names => do
      let target ← Txn.read fun tools => lookup name tools.aliases
      let isTool ← Txn.read fun tools => (lookup name tools.entries).isSome
      Txn.require (!(isTool && name ≠ canonical))
        (duplicateError ("alias collides with tool: " ++ Journal.pyRepr name))
      Txn.require (target.all (· = canonical))
        (duplicateError ("alias already registered: " ++ Journal.pyRepr name))
      requireFree canonical names

def aliasAll (canonical : String) (names : List String) (aliases : List (String × String)) :
    List (String × String) :=
  names.foldl (fun acc name => setKey name canonical acc) aliases

def enter (entry : ToolEntry) (canonical : String) (names : List String) (tools : LiveRegistry) :
    LiveRegistry where
  entries := setKey canonical entry tools.entries
  aliases := aliasAll canonical names tools.aliases
  generation := tools.generation + 1

def register (entry : ToolEntry) (aliasNames : List PyVal) (override : Bool) : Op ToolEntry := do
  let (canonical, normalized) ← admission entry aliasNames override
  Txn.write (dropAliases canonical)
  requireFree canonical normalized
  Txn.write (enter entry canonical normalized)
  return entry

def registerAlias (aliasName : PyVal) (target : String) : Op Unit := do
  let name ← Txn.lift (toolName aliasName)
  let canonical ← Txn.read fun tools => (lookup target tools.aliases).getD target
  let isTool ← Txn.read fun tools => (lookup canonical tools.entries).isSome
  Txn.require isTool ⟨.other "UnknownToolError", "unknown tool: " ++ Journal.pyRepr target⟩
  let occupied ← Txn.read fun tools => tools.isOccupied name
  Txn.require (!occupied)
    (duplicateError ("tool name or alias already registered: " ++ Journal.pyRepr name))
  Txn.write fun tools =>
    { tools with
      aliases := setKey name canonical tools.aliases
      generation := tools.generation + 1 }

def registerEach : List ToolEntry → Op Unit
  | [] => return ()
  | entry :: entries => do
      let _ ← register entry [] false
      registerEach entries

def aliasEach : List (String × String) → Op Unit
  | [] => return ()
  | (name, target) :: aliases => do
      registerAlias (.str name) target
      aliasEach aliases

/-- The new registry, filled from the entries and aliases of the old one. -/
def clone (tools : LiveRegistry) : Except PyError LiveRegistry :=
  match (do registerEach (tools.entries.map Prod.snd); aliasEach tools.aliases : Op Unit) empty with
  | (.ok _, copy) => .ok copy
  | (.error e, _) => .error e

end LiveRegistry

/-- A call that changes a registry. -/
inductive RegistryCall where
  | register (entry : ToolEntry) (aliasNames : List PyVal) (override : Bool)
  | registerAlias (aliasName : PyVal) (target : String)

namespace LiveRegistry

def perform : RegistryCall → Op Unit
  | .register entry aliasNames override => do
      let _ ← register entry aliasNames override
      return ()
  | .registerAlias aliasName target => registerAlias aliasName target

/-- The registry after the calls, those that raise included. -/
def history (calls : List RegistryCall) : LiveRegistry :=
  calls.foldl (fun tools c => (perform c tools).2) empty

/-- No alias is the name of a tool, and each leads to one. -/
structure WellFormed (tools : LiveRegistry) : Prop where
  toolsOnce : (tools.entries.map Prod.fst).Nodup
  named : ∀ e ∈ tools.entries, toolName (.str e.2.name) = .ok e.1
  aliasesOnce : (tools.aliases.map Prod.fst).Nodup
  stripped : ∀ a ∈ tools.aliases, toolName (.str a.1) = .ok a.1
  apart : ∀ a ∈ tools.aliases, lookup a.1 tools.entries = none
  leads : ∀ a ∈ tools.aliases, (lookup a.2 tools.entries).isSome

/-- The name belongs to another tool, as its name or as an alias of it. -/
def IsTaken (tools : LiveRegistry) (canonical name : String) : Prop :=
  (lookup name tools.entries).isSome ∧ name ≠ canonical ∨
    ∃ target, lookup name tools.aliases = some target ∧ target ≠ canonical

/-- The names under which `register` goes on to change the registry. -/
structure Admitted (tools : LiveRegistry) (entry : ToolEntry) (aliasNames : List PyVal)
    (override : Bool) (canonical : String) (names : List String) : Prop where
  isName : toolName (.str entry.name) = .ok canonical
  areNames : aliasNames.mapM toolName = .ok names
  fresh : canonical ∉ names
  once : names.Nodup
  free : override = false → ∀ name ∈ canonical :: names, tools.isOccupied name = false
  notAlias : override = true → lookup canonical tools.aliases = none

variable {tools tools' : LiveRegistry} {entry : ToolEntry} {aliasNames : List PyVal}
  {override : Bool} {canonical : String} {names : List String}

theorem toolName_ok {v : PyVal} {name : String} (h : toolName v = .ok name) :
    ∃ s, v = .str s ∧ isBlankText s = false ∧ name = pyStrip s := by
  cases v with
  | str s =>
      rw [toolName] at h
      split at h
      · simp at h
      · rename_i hblank
        exact ⟨s, rfl, by simpa using hblank, (Except.ok.inj h).symm⟩
  | _ => simp [toolName] at h

theorem pyStrip_pyStrip (s : String) : pyStrip (pyStrip s) = pyStrip s := by
  have hdrop : ((s.toList.dropWhile isSpace).rdropWhile isSpace).dropWhile isSpace =
      (s.toList.dropWhile isSpace).rdropWhile isSpace := by
    rw [List.dropWhile_eq_self_iff]
    intro hpos
    have hhead := (List.rdropWhile_prefix isSpace (s.toList.dropWhile isSpace)).getElem hpos
    rw [hhead]
    exact (List.dropWhile_eq_self_iff.1 (List.dropWhile_idempotent isSpace s.toList)) _
  simp only [pyStrip, String.toList_ofList, hdrop, List.rdropWhile_idempotent]

theorem mem_dropWhile_of_not {p : Char → Bool} {cs : List Char} {c : Char} (h : c ∈ cs)
    (hc : p c = false) : c ∈ cs.dropWhile p := by
  induction cs with
  | nil => exact h
  | cons d cs ih =>
      rw [List.dropWhile_cons]
      split
      · rename_i hd
        rcases List.mem_cons.1 h with rfl | h
        · simp [hc] at hd
        · exact ih h
      · exact h

theorem pyStrip_notBlank {s : String} (h : isBlankText s = false) :
    isBlankText (pyStrip s) = false := by
  simp only [isBlankText, List.all_eq_false, Bool.not_eq_true] at h ⊢
  obtain ⟨c, hc, hspace⟩ := h
  refine ⟨c, ?_, hspace⟩
  rw [pyStrip, String.toList_ofList, List.rdropWhile, List.mem_reverse]
  exact mem_dropWhile_of_not (List.mem_reverse.2 (mem_dropWhile_of_not hc hspace)) hspace

/-- A name that has been read is a name itself. -/
theorem toolName_name {v : PyVal} {name : String} (h : toolName v = .ok name) :
    toolName (.str name) = .ok name := by
  obtain ⟨s, rfl, hblank, rfl⟩ := toolName_ok h
  rw [toolName, if_neg (by simp [pyStrip_notBlank hblank]), pyStrip_pyStrip]

/-! What `register` and `register_alias` make of a registry. -/

theorem admission_readOnly : Txn.ReadOnly (admission entry aliasNames override) := by
  refine (Txn.lift_readOnly _).bind fun canonical => (Txn.lift_readOnly _).bind fun normalized =>
    (Txn.require_readOnly _ _).bind fun _ => (Txn.read_readOnly _).bind fun collision =>
      (Txn.read_readOnly _).bind fun isAlias => ?_
  split
  · exact Txn.fail_readOnly _
  · exact Txn.pure_readOnly _
  · exact (Txn.require_readOnly _ _).bind fun _ => Txn.pure_readOnly _

theorem admission_ok : admission entry aliasNames override tools = (.ok (canonical, names), tools') ↔
    tools' = tools ∧ Admitted tools entry aliasNames override canonical names := by
  constructor
  · intro h
    obtain rfl := admission_readOnly.state h
    simp only [admission, Txn.bind_ok, Txn.lift_ok, Txn.require_ok, Txn.read_ok, Bool.and_eq_true,
      decide_eq_true_eq] at h
    obtain ⟨c, _, ⟨hname, rfl⟩, ns, _, ⟨hnames, rfl⟩, _, _, ⟨⟨hfresh, honce⟩, rfl⟩, collision, _,
      ⟨hcollision, rfl⟩, isAlias, _, ⟨halias, rfl⟩, h⟩ := h
    refine ⟨rfl, ?_⟩
    split at h
    · simp at h
    · obtain ⟨heq, -⟩ := Txn.pure_ok.1 h
      obtain ⟨rfl, rfl⟩ := Prod.mk.inj heq
      refine ⟨hname, hnames, hfresh, honce, fun _ => ?_, fun hno => Bool.noConfusion hno⟩
      simpa using List.find?_eq_none.1 hcollision
    · simp only [Txn.bind_ok, Txn.require_ok, Txn.pure_ok, Prod.mk.injEq] at h
      obtain ⟨_, _, ⟨hnot, rfl⟩, ⟨rfl, rfl⟩, -⟩ := h
      refine ⟨hname, hnames, hfresh, honce, fun hno => Bool.noConfusion hno, fun _ => ?_⟩
      rw [← halias] at hnot
      simpa using hnot
  · rintro ⟨rfl, h⟩
    simp only [admission, Txn.bind_ok, Txn.lift_ok, Txn.require_ok, Txn.read_ok, Bool.and_eq_true,
      decide_eq_true_eq]
    refine ⟨canonical, _, ⟨h.isName, rfl⟩, names, _, ⟨h.areNames, rfl⟩, (), _,
      ⟨⟨h.fresh, h.once⟩, rfl⟩, _, _, ⟨rfl, rfl⟩, _, _, ⟨rfl, rfl⟩, ?_⟩
    cases override with
    | false =>
        have hnone : (canonical :: names).find? tools'.isOccupied = none :=
          List.find?_eq_none.2 fun name hname => by simp [h.free rfl name hname]
        rw [hnone]
        rfl
    | true =>
        simp only [h.notAlias rfl]
        rfl

theorem requireFree_readOnly : Txn.ReadOnly (requireFree canonical names) := by
  induction names with
  | nil => exact Txn.pure_readOnly _
  | cons name names ih =>
      exact (Txn.read_readOnly _).bind fun _ => (Txn.read_readOnly _).bind fun _ =>
        (Txn.require_readOnly _ _).bind fun _ => (Txn.require_readOnly _ _).bind fun _ => ih

theorem requireFree_ok {u : Unit} : requireFree canonical names tools = (.ok u, tools') ↔
    tools' = tools ∧ ∀ name ∈ names, ¬ tools.IsTaken canonical name := by
  induction names with
  | nil =>
      exact ⟨fun h => ⟨(Txn.pure_ok.1 h).2.symm, by simp⟩, fun h => Txn.pure_ok.2 ⟨rfl, h.1.symm⟩⟩
  | cons name names ih =>
      simp only [requireFree, Txn.bind_ok, Txn.read_ok, Txn.require_ok, List.forall_mem_cons]
      constructor
      · rintro ⟨target, _, ⟨htarget, rfl⟩, isTool, _, ⟨htool, rfl⟩, _, _, ⟨happart, rfl⟩, _, _,
          ⟨hown, rfl⟩, hrest⟩
        obtain ⟨hsame, hrest⟩ := ih.1 hrest
        refine ⟨hsame, ?_, hrest⟩
        rintro (⟨hsome, hne⟩ | ⟨other, hother, hne⟩)
        · simp [← htool, hsome, hne] at happart
        · simp [← htarget, hother, hne] at hown
      · rintro ⟨hsame, hfree, hrest⟩
        refine ⟨_, _, ⟨rfl, rfl⟩, _, _, ⟨rfl, rfl⟩, (), _, ⟨?_, rfl⟩, (), _, ⟨?_, rfl⟩,
          ih.2 ⟨hsame, hrest⟩⟩
        · simp only [Bool.not_eq_true', Bool.and_eq_false_iff, decide_eq_false_iff_not, not_not]
          by_cases hne : name = canonical
          · exact .inr hne
          · refine .inl (Bool.eq_false_iff.2 fun hsome => hfree (.inl ⟨hsome, hne⟩))
        · cases htarget : lookup name tools.aliases with
          | none => rfl
          | some target =>
              by_cases hne : target = canonical
              · simpa using hne
              · exact absurd (.inr ⟨target, htarget, hne⟩) hfree

theorem register_of_admitted (h : Admitted tools entry aliasNames override canonical names) :
    (∃ e, register entry aliasNames override tools = (.error e, dropAliases canonical tools)) ∧
        (∃ name ∈ names, (dropAliases canonical tools).IsTaken canonical name) ∨
      register entry aliasNames override tools =
          (.ok entry, enter entry canonical names (dropAliases canonical tools)) ∧
        ∀ name ∈ names, ¬ (dropAliases canonical tools).IsTaken canonical name := by
  have hadmit := admission_ok.2 ⟨rfl, h⟩
  have hwrite : (Txn.write (dropAliases canonical) : Op Unit) tools =
      (.ok (), dropAliases canonical tools) := rfl
  rw [register, Txn.bind_of_ok hadmit]
  dsimp only
  rw [Txn.bind_of_ok hwrite]
  rcases hfree : requireFree canonical names (dropAliases canonical tools) with ⟨e | u, t'⟩
  · obtain rfl := requireFree_readOnly.state hfree
    refine .inl ⟨⟨e, Txn.bind_of_error hfree⟩, ?_⟩
    by_contra hnone
    push Not at hnone
    have hok := (requireFree_ok (u := ())).2 ⟨rfl, hnone⟩
    simp [hfree] at hok
  · obtain ⟨rfl, hnone⟩ := requireFree_ok.1 hfree
    exact .inr ⟨Txn.bind_of_ok hfree, hnone⟩

/-- A registration stops before it changes anything, or between its two changes, or not at all. -/
theorem register_cases {r : Except PyError ToolEntry}
    (h : register entry aliasNames override tools = (r, tools')) :
    (∃ e, r = .error e) ∧ tools' = tools ∨
      ∃ canonical names, Admitted tools entry aliasNames override canonical names ∧
        ((∃ e, r = .error e) ∧ tools' = dropAliases canonical tools ∧
            (∃ name ∈ names, (dropAliases canonical tools).IsTaken canonical name) ∨
          r = .ok entry ∧ tools' = enter entry canonical names (dropAliases canonical tools) ∧
            ∀ name ∈ names, ¬ (dropAliases canonical tools).IsTaken canonical name) := by
  rcases hadmit : admission entry aliasNames override tools with ⟨e | ⟨canonical, names⟩, t⟩
  · rw [register, Txn.bind_of_error hadmit] at h
    obtain ⟨rfl, rfl⟩ := Prod.mk.inj h
    exact .inl ⟨⟨e, rfl⟩, admission_readOnly.state hadmit⟩
  · obtain ⟨-, hadmitted⟩ := admission_ok.1 hadmit
    refine .inr ⟨canonical, names, hadmitted, ?_⟩
    obtain ⟨⟨e, hr⟩, htaken⟩ | ⟨hr, hfree⟩ := register_of_admitted hadmitted
    · obtain ⟨rfl, rfl⟩ := Prod.mk.inj (hr.symm.trans h)
      exact .inl ⟨⟨e, rfl⟩, rfl, htaken⟩
    · obtain ⟨rfl, rfl⟩ := Prod.mk.inj (hr.symm.trans h)
      exact .inr ⟨rfl, rfl, hfree⟩

theorem registerAlias_cases {aliasName : PyVal} {target : String} {r : Except PyError Unit}
    (h : registerAlias aliasName target tools = (r, tools')) :
    (∃ e, r = .error e) ∧ tools' = tools ∨
      r = .ok () ∧ ∃ name canonical, toolName aliasName = .ok name ∧
        (lookup canonical tools.entries).isSome ∧ tools.isOccupied name = false ∧
        canonical = (lookup target tools.aliases).getD target ∧
        tools' = { tools with
          aliases := setKey name canonical tools.aliases
          generation := tools.generation + 1 } := by
  cases r with
  | error e =>
      have hatomic : Txn.Atomic (registerAlias aliasName target) :=
        (Txn.lift_readOnly _).bind_atomic fun _ => (Txn.read_readOnly _).bind_atomic fun _ =>
          (Txn.read_readOnly _).bind_atomic fun _ => (Txn.require_readOnly _ _).bind_atomic fun _ =>
            (Txn.read_readOnly _).bind_atomic fun _ =>
              (Txn.require_readOnly _ _).bind_atomic fun _ _ _ hwrite => by simp [Txn.write] at hwrite
      exact .inl ⟨⟨e, rfl⟩, hatomic.state h⟩
  | ok u =>
      simp only [registerAlias, Txn.bind_ok, Txn.lift_ok, Txn.read_ok, Txn.require_ok,
        Txn.write_ok] at h
      obtain ⟨name, _, ⟨hname, rfl⟩, canonical, _, ⟨hcanonical, rfl⟩, isTool, _, ⟨htool, rfl⟩, _, _,
        ⟨hsome, rfl⟩, occupied, _, ⟨hoccupied, rfl⟩, _, _, ⟨hfree, rfl⟩, hwrite⟩ := h
      refine .inr ⟨rfl, name, canonical, hname, htool.trans hsome, ?_, hcanonical.symm, hwrite.symm⟩
      rw [hoccupied]
      simpa using hfree

/-! The registries that are reached. -/

theorem mem_aliasAll {aliases : List (String × String)} {a : String × String}
    (h : a ∈ aliasAll canonical names aliases) : a.1 ∈ names ∧ a.2 = canonical ∨ a ∈ aliases := by
  induction names generalizing aliases with
  | nil => exact .inr h
  | cons name names ih =>
      rcases ih h with ⟨hmem, heq⟩ | hmem
      · exact .inl ⟨List.mem_cons_of_mem _ hmem, heq⟩
      · rcases mem_setKey hmem with rfl | hmem
        · exact .inl ⟨List.mem_cons_self, rfl⟩
        · exact .inr hmem

theorem aliasAll_nodup {aliases : List (String × String)} (h : (aliases.map Prod.fst).Nodup) :
    ((aliasAll canonical names aliases).map Prod.fst).Nodup := by
  induction names generalizing aliases with
  | nil => exact h
  | cons name names ih => exact ih (setKey_nodup name canonical h)

theorem mapM_toolName {name : String} (h : aliasNames.mapM toolName = .ok names)
    (hname : name ∈ names) : toolName (.str name) = .ok name := by
  induction aliasNames generalizing names with
  | nil =>
      obtain rfl := Except.ok.inj h
      simp at hname
  | cons v vs ih =>
      rw [List.mapM_cons] at h
      obtain ⟨first, hfirst, h⟩ := bind_eq_ok.1 h
      obtain ⟨rest, hrest, h⟩ := bind_eq_ok.1 h
      obtain rfl := Except.ok.inj h
      rcases List.mem_cons.1 hname with rfl | hname
      · exact toolName_name hfirst
      · exact ih hrest hname

theorem not_isOccupied {name : String} : tools.isOccupied name = false ↔
    lookup name tools.entries = none ∧ lookup name tools.aliases = none := by
  simp [isOccupied]

theorem dropAliases_entries : (dropAliases canonical tools).entries = tools.entries := by
  unfold dropAliases
  split <;> rfl

theorem WellFormed.dropAliases (h : tools.WellFormed) :
    (tools.dropAliases canonical).WellFormed := by
  unfold LiveRegistry.dropAliases
  split
  · exact ⟨h.toolsOnce, h.named, h.aliasesOnce.sublist (List.filter_sublist.map _),
      fun a ha => h.stripped a (List.mem_of_mem_filter ha),
      fun a ha => h.apart a (List.mem_of_mem_filter ha),
      fun a ha => h.leads a (List.mem_of_mem_filter ha)⟩
  · exact h

theorem Admitted.notAlias_canonical
    (h : Admitted tools entry aliasNames override canonical names) :
    lookup canonical tools.aliases = none := by
  cases override with
  | false => exact (not_isOccupied.1 (h.free rfl canonical List.mem_cons_self)).2
  | true => exact h.notAlias rfl

theorem WellFormed.enter (h : tools.WellFormed) (hname : toolName (.str entry.name) = .ok canonical)
    (hnames : ∀ name ∈ names, toolName (.str name) = .ok name) (hfresh : canonical ∉ names)
    (halias : lookup canonical tools.aliases = none)
    (hfree : ∀ name ∈ names, ¬ tools.IsTaken canonical name) :
    (LiveRegistry.enter entry canonical names tools).WellFormed where
  toolsOnce := setKey_nodup canonical entry h.toolsOnce
  named := by
    intro e he
    rcases mem_setKey he with rfl | he
    · exact hname
    · exact h.named e he
  aliasesOnce := aliasAll_nodup h.aliasesOnce
  stripped := by
    intro a ha
    rcases mem_aliasAll ha with ⟨ha, -⟩ | ha
    · exact hnames a.1 ha
    · exact h.stripped a ha
  apart := by
    intro a ha
    have hapart : a.1 ≠ canonical ∧ lookup a.1 tools.entries = none := by
      rcases mem_aliasAll ha with ⟨ha, -⟩ | ha
      · have hne : a.1 ≠ canonical := fun heq => hfresh (heq ▸ ha)
        refine ⟨hne, Option.not_isSome_iff_eq_none.1 fun hsome => hfree a.1 ha (.inl ⟨hsome, hne⟩)⟩
      · refine ⟨fun heq => ?_, h.apart a ha⟩
        rw [← heq, lookup_of_mem h.aliasesOnce ha] at halias
        simp at halias
    rw [LiveRegistry.enter, lookup_setKey, if_neg hapart.1]
    exact hapart.2
  leads := by
    intro a ha
    rw [LiveRegistry.enter, lookup_setKey]
    split
    · rfl
    · rename_i hne
      rcases mem_aliasAll ha with ⟨-, heq⟩ | ha
      · exact absurd heq hne
      · exact h.leads a ha

theorem dropAliases_subset : (dropAliases canonical tools).aliases ⊆ tools.aliases := by
  unfold dropAliases
  split
  · exact List.filter_sublist.subset
  · exact List.Subset.refl _

theorem lookup_dropAliases_none {name : String} (h : lookup name tools.aliases = none) :
    lookup name (dropAliases canonical tools).aliases = none := by
  refine lookup_eq_none fun hmem => ?_
  have hsome := lookup_isSome.2 (List.map_subset Prod.fst dropAliases_subset hmem)
  simp [h] at hsome

theorem WellFormed.register {r : Except PyError ToolEntry} (h : tools.WellFormed)
    (hr : LiveRegistry.register entry aliasNames override tools = (r, tools')) :
    tools'.WellFormed := by
  obtain ⟨-, rfl⟩ | ⟨canonical, names, hadmitted, ⟨-, rfl, -⟩ | ⟨-, rfl, hfree⟩⟩ := register_cases hr
  · exact h
  · exact h.dropAliases
  · exact h.dropAliases.enter hadmitted.isName (fun name => mapM_toolName hadmitted.areNames)
      hadmitted.fresh (lookup_dropAliases_none hadmitted.notAlias_canonical) hfree

theorem WellFormed.registerAlias {aliasName : PyVal} {target : String} {r : Except PyError Unit}
    (h : tools.WellFormed) (hr : LiveRegistry.registerAlias aliasName target tools = (r, tools')) :
    tools'.WellFormed := by
  obtain ⟨-, rfl⟩ | ⟨-, name, canonical, hname, htool, hfree, -, rfl⟩ := registerAlias_cases hr
  · exact h
  · refine ⟨h.toolsOnce, h.named, setKey_nodup name canonical h.aliasesOnce, ?_, ?_, ?_⟩
    all_goals
      intro a ha
      rcases mem_setKey ha with rfl | ha
    · exact toolName_name hname
    · exact h.stripped a ha
    · exact (not_isOccupied.1 hfree).1
    · exact h.apart a ha
    · exact htool
    · exact h.leads a ha

theorem history_concat (calls : List RegistryCall) (c : RegistryCall) :
    history (calls ++ [c]) = (perform c (history calls)).2 := by
  simp [history, List.foldl_append]

theorem history_wellFormed (calls : List RegistryCall) : (history calls).WellFormed := by
  induction calls using List.reverseRec with
  | nil => exact ⟨by simp [history, empty], by simp [history, empty], by simp [history, empty],
      by simp [history, empty], by simp [history, empty], by simp [history, empty]⟩
  | append_singleton calls c ih =>
      rw [history_concat]
      cases c with
      | register entry aliasNames override =>
          rcases hr : register entry aliasNames override (history calls) with ⟨e | added, t⟩
          · rw [perform, Txn.bind_of_error hr]
            exact ih.register hr
          · rw [perform, Txn.bind_of_ok hr]
            exact ih.register hr
      | registerAlias aliasName target => exact ih.registerAlias (Prod.mk.eta.symm)

/-! The copy of a registry. -/

theorem register_fresh {before : List (String × ToolEntry)} {e : String × ToolEntry} {n : ℕ}
    (hfresh : e.1 ∉ before.map Prod.fst) (hname : toolName (.str e.2.name) = .ok e.1) :
    register e.2 [] false ⟨⟨before, []⟩, n⟩ = (.ok e.2, ⟨⟨before ++ [e], []⟩, n + 1⟩) := by
  have hnone : lookup e.1 before = none := lookup_eq_none hfresh
  have hadmit : admission e.2 [] false ⟨⟨before, []⟩, n⟩ = (.ok (e.1, []), ⟨⟨before, []⟩, n⟩) :=
    admission_ok.2 ⟨rfl, hname, rfl, by simp, by simp, by simp [isOccupied, hnone, lookup], by simp⟩
  have hentries : setKey e.1 e.2 before = before ++ [e] :=
    setKey_append_ne e.1 e.2 fun f hf heq => hfresh (heq ▸ List.mem_map_of_mem hf)
  rw [register, Txn.bind_of_ok hadmit]
  change (Except.ok e.2, enter e.2 e.1 [] (dropAliases e.1 ⟨⟨before, []⟩, n⟩)) = _
  simp [dropAliases, hnone, enter, aliasAll, hentries]

theorem registerEach_returns {before after : List (String × ToolEntry)} {n : ℕ}
    (honce : ((before ++ after).map Prod.fst).Nodup)
    (hnamed : ∀ e ∈ after, toolName (.str e.2.name) = .ok e.1) :
    registerEach (after.map Prod.snd) ⟨⟨before, []⟩, n⟩ =
      (.ok (), ⟨⟨before ++ after, []⟩, n + after.length⟩) := by
  induction after generalizing before n with
  | nil => simp [registerEach, pure, Txn.pure]
  | cons e after ih =>
      obtain ⟨hname, hnamed⟩ := List.forall_mem_cons.1 hnamed
      have hfresh : e.1 ∉ before.map Prod.fst := by
        intro hmem
        rw [List.map_append, List.nodup_append] at honce
        exact honce.2.2 e.1 hmem e.1 (by simp) rfl
      rw [List.append_cons] at honce
      rw [List.map_cons, registerEach, Txn.bind_of_ok (register_fresh hfresh hname),
        ih honce hnamed, List.append_assoc, List.singleton_append, List.length_cons, Nat.add_assoc,
        Nat.add_comm 1]

theorem registerAlias_fresh {entries : List (String × ToolEntry)} {before : List (String × String)}
    {a : String × String} {n : ℕ} (hname : toolName (.str a.1) = .ok a.1)
    (htarget : lookup a.2 before = none) (htool : (lookup a.2 entries).isSome)
    (hentries : lookup a.1 entries = none) (hbefore : a.1 ∉ before.map Prod.fst) :
    registerAlias (.str a.1) a.2 ⟨⟨entries, before⟩, n⟩ =
      (.ok (), ⟨⟨entries, before ++ [a]⟩, n + 1⟩) := by
  have haliases : setKey a.1 a.2 before = before ++ [a] :=
    setKey_append_ne a.1 a.2 fun b hb heq => hbefore (heq ▸ List.mem_map_of_mem hb)
  simp only [registerAlias, Txn.bind_ok, Txn.lift_ok, Txn.read_ok, Txn.require_ok, Txn.write_ok]
  refine ⟨a.1, _, ⟨hname, rfl⟩, a.2, _, ⟨by rw [htarget]; rfl, rfl⟩, _, _, ⟨htool, rfl⟩, (), _,
    ⟨rfl, rfl⟩, false, _, ⟨not_isOccupied.2 ⟨hentries, lookup_eq_none hbefore⟩, rfl⟩, (), _,
    ⟨rfl, rfl⟩, ?_⟩
  simp [haliases]

theorem aliasEach_returns {entries : List (String × ToolEntry)}
    {before after : List (String × String)} {n : ℕ}
    (h : WellFormed ⟨⟨entries, before ++ after⟩, n⟩) :
    aliasEach after ⟨⟨entries, before⟩, n⟩ =
      (.ok (), ⟨⟨entries, before ++ after⟩, n + after.length⟩) := by
  induction after generalizing before n with
  | nil => simp [aliasEach, pure, Txn.pure]
  | cons a after ih =>
      have hmem : a ∈ before ++ a :: after := by simp
      have htool := h.leads a hmem
      have hbefore : a.1 ∉ before.map Prod.fst := by
        intro hin
        have honce := h.aliasesOnce
        rw [List.map_append, List.nodup_append] at honce
        exact honce.2.2 a.1 hin a.1 (by simp) rfl
      have htarget : lookup a.2 before = none := by
        refine lookup_eq_none fun hin => ?_
        obtain ⟨b, hb, hba⟩ := List.mem_map.1 hin
        rw [← hba, h.apart b (List.mem_append_left _ hb)] at htool
        simp at htool
      have hrest : WellFormed ⟨⟨entries, before ++ [a] ++ after⟩, n + 1⟩ := by
        rw [← List.append_cons]
        exact ⟨h.toolsOnce, h.named, h.aliasesOnce, h.stripped, h.apart, h.leads⟩
      rw [aliasEach, Txn.bind_of_ok (registerAlias_fresh (h.stripped a hmem) htarget htool
        (h.apart a hmem) hbefore), ih hrest, List.append_assoc, List.singleton_append,
        List.length_cons, Nat.add_assoc, Nat.add_comm 1]

theorem WellFormed.clone (h : tools.WellFormed) : ∃ copy, LiveRegistry.clone tools = .ok copy ∧
    copy.entries = tools.entries ∧ copy.aliases = tools.aliases := by
  have hentries : registerEach (tools.entries.map Prod.snd) empty =
      (.ok (), ⟨⟨tools.entries, []⟩, 0 + tools.entries.length⟩) :=
    registerEach_returns (by simpa using h.toolsOnce) h.named
  have haliases : aliasEach tools.aliases ⟨⟨tools.entries, []⟩, 0 + tools.entries.length⟩ =
      (.ok (), ⟨⟨tools.entries, tools.aliases⟩, 0 + tools.entries.length + tools.aliases.length⟩) :=
    aliasEach_returns ⟨h.toolsOnce, h.named, h.aliasesOnce, h.stripped, h.apart, h.leads⟩
  refine ⟨⟨⟨tools.entries, tools.aliases⟩, 0 + tools.entries.length + tools.aliases.length⟩, ?_,
    rfl, rfl⟩
  rw [LiveRegistry.clone, Txn.bind_of_ok hentries, haliases]

/-! When a call that raises leaves the registry as it was. -/

/-- The call overrides a tool that has aliases, and one of the new aliases belongs to another tool. -/
def LosesAliases (tools : LiveRegistry) : RegistryCall → Prop
  | .register entry aliasNames true => ∃ canonical names,
      Admitted tools entry aliasNames true canonical names ∧
        (lookup canonical tools.entries).isSome ∧ (∃ a ∈ tools.aliases, a.2 = canonical) ∧
        ∃ name ∈ names, tools.IsTaken canonical name
  | _ => False

theorem dropAliases_eq_iff (h : tools.WellFormed) :
    dropAliases canonical tools = tools ↔ ∀ a ∈ tools.aliases, a.2 ≠ canonical := by
  constructor
  · intro hsame a ha heq
    have htool : (lookup canonical tools.entries).isSome := heq ▸ h.leads a ha
    have haliases := congrArg (fun t => t.aliases) hsame
    rw [dropAliases, if_pos htool] at haliases
    have hkept := haliases ▸ ha
    simpa [heq] using List.of_mem_filter hkept
  · intro hnone
    unfold dropAliases
    split
    · have hall : (tools.aliases.filter fun a => a.2 ≠ canonical) = tools.aliases :=
        List.filter_eq_self.2 fun a ha => by simpa using hnone a ha
      rw [hall]
    · rfl

theorem isTaken_dropAliases {name : String} (h : tools.WellFormed) :
    (dropAliases canonical tools).IsTaken canonical name ↔ tools.IsTaken canonical name := by
  unfold IsTaken
  rw [dropAliases_entries]
  refine or_congr_right (exists_congr fun target => and_congr_left fun hne => ?_)
  have hdropped : (dropAliases canonical tools).WellFormed := h.dropAliases
  have honce := hdropped.aliasesOnce
  constructor
  · intro hfound
    exact lookup_of_mem h.aliasesOnce (dropAliases_subset (mem_of_lookup hfound))
  · intro hfound
    refine lookup_of_mem (e := (name, target)) honce ?_
    unfold dropAliases
    split
    · exact List.mem_filter.2 ⟨mem_of_lookup hfound, by simpa using hne⟩
    · exact mem_of_lookup hfound

theorem register_keeps_iff (h : tools.WellFormed) :
    (∀ e, (register entry aliasNames override tools).1 = .error e →
        (register entry aliasNames override tools).2 = tools) ↔
      ¬ tools.LosesAliases (.register entry aliasNames override) := by
  constructor
  · intro hkeeps hloses
    cases override with
    | false => exact hloses
    | true =>
        obtain ⟨canonical, names, hadmitted, -, ⟨a, ha, heq⟩, name, hname, htaken⟩ := hloses
        obtain ⟨⟨e, hr⟩, -⟩ | ⟨-, hfree⟩ := register_of_admitted hadmitted
        · rw [hr] at hkeeps
          exact (dropAliases_eq_iff h).1 (hkeeps e rfl) a ha heq
        · exact hfree name hname ((isTaken_dropAliases h).2 htaken)
  · intro hnot e he
    rcases hr : register entry aliasNames override tools with ⟨r, t⟩
    obtain ⟨-, rfl⟩ | ⟨canonical, names, hadmitted, ⟨-, rfl, name, hname, htaken⟩ | ⟨rfl, -, -⟩⟩ :=
      register_cases hr
    · rfl
    · refine (dropAliases_eq_iff h).2 fun a ha heq => hnot ?_
      have htool : (lookup canonical tools.entries).isSome := heq ▸ h.leads a ha
      cases override with
      | false =>
          have hfree := not_isOccupied.1 (hadmitted.free rfl canonical List.mem_cons_self)
          simp [hfree.1] at htool
      | true =>
          exact ⟨canonical, names, hadmitted, htool, ⟨a, ha, heq⟩, name, hname,
            (isTaken_dropAliases h).1 htaken⟩
    · simp [hr] at he

theorem perform_register : perform (.register entry aliasNames override) tools =
    ((register entry aliasNames override tools).1.map fun _ => (),
      (register entry aliasNames override tools).2) := by
  rcases hr : register entry aliasNames override tools with ⟨e | added, t⟩
  · exact Txn.bind_of_error hr
  · exact Txn.bind_of_ok hr

/-- In every registry that is reached the names are unambiguous and a copy is the same, and a call
that raises changes nothing unless it drops the aliases of the tool that it overrides. -/
theorem registration_atomic_iff (calls : List RegistryCall) :
    (∀ name, (lookup name (history calls).aliases).isSome →
      lookup name (history calls).entries = none) ∧
    (∀ name target, lookup name (history calls).aliases = some target →
      ∃ entry, (history calls).getEntry name = .ok entry ∧
        lookup target (history calls).entries = some entry) ∧
    (∃ copy, clone (history calls) = .ok copy ∧ copy.entries = (history calls).entries ∧
      copy.aliases = (history calls).aliases) ∧
    ∀ c, (∀ e, (perform c (history calls)).1 = .error e →
        (perform c (history calls)).2 = history calls) ↔ ¬ (history calls).LosesAliases c := by
  have h := history_wellFormed calls
  refine ⟨fun name hname => ?_, fun name target hfound => ?_, h.clone, fun c => ?_⟩
  · obtain ⟨a, ha, rfl⟩ := List.mem_map.1 (lookup_isSome.1 hname)
    exact h.apart a ha
  · obtain ⟨entry, hentry⟩ := Option.isSome_iff_exists.1 (h.leads _ (mem_of_lookup hfound))
    refine ⟨entry, ?_, hentry⟩
    rw [ToolRegistry.getEntry, hfound, Option.getD_some, hentry]
  · cases c with
    | register entry aliasNames override =>
        rw [← register_keeps_iff h, perform_register]
        cases (register entry aliasNames override (history calls)).1 <;> simp [Except.map]
    | registerAlias aliasName target =>
        refine ⟨fun _ hno => hno, fun _ e he => ?_⟩
        rcases hr : registerAlias aliasName target (history calls) with ⟨r, t⟩
        obtain ⟨-, rfl⟩ | ⟨rfl, -⟩ := registerAlias_cases hr
        · exact congrArg Prod.snd hr
        · simp [perform, hr] at he

/-! A tool that loses its aliases to an override that is refused. -/

namespace Override

def tool (name : String) (h : isBlankText name = false) : ToolEntry :=
  ⟨⟨name, h⟩, .empty, "", .readOnly⟩

def echo : ToolEntry := tool "echo" (by decide +kernel)

def calls : List RegistryCall :=
  [.register echo [.str "repeat"] false, .register (tool "fetch" (by decide +kernel)) [] false]

def call : RegistryCall := .register echo [.str "fetch"] true

end Override

theorem not_registration_atomic : ¬ ∀ calls c e, (perform c (history calls)).1 = .error e →
    (perform c (history calls)).2 = history calls := by
  intro h
  have hraised : (perform Override.call (history Override.calls)).1 =
      .error (duplicateError "alias collides with tool: 'fetch'") := by decide +kernel
  have hlost : (perform Override.call (history Override.calls)).2.aliases ≠
      (history Override.calls).aliases := by decide +kernel
  exact hlost (congrArg (fun tools => tools.aliases) (h _ _ _ hraised))

end LiveRegistry

end Polaris
