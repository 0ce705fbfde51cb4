import Polaris.Providers.Requests
import Polaris.Tools.Registry
import Polaris.Runtime.CompletionRoundTrip

namespace Polaris
open PyJson PyVal SortedDict

theorem itemsEncodable_iff {xs : List PyVal} :
    itemsEncodable xs = true ↔ ∀ x ∈ xs, encodable x = true := by
  induction xs with
  | nil => simp [itemsEncodable]
  | cons x xs ih => simp [itemsEncodable, ih]

theorem entriesEncodable_iff {es : List (String × PyVal)} :
    entriesEncodable es = true ↔ ∀ e ∈ es, encodable e.2 = true := by
  induction es with
  | nil => simp [entriesEncodable]
  | cons e es ih => obtain ⟨k, x⟩ := e; simp [entriesEncodable, ih]

mutual
theorem encodable_of_plain : ∀ v : PyVal, v.isPlain = true → encodable v = true
  | .null, _ | .bool _, _ | .int _, _ | .float _, _ | .str _, _ => rfl
  | .seq .list xs, h => itemsEncodable_of_plain xs h
  | .seq .tuple _, h => by simp [isPlain] at h
  | .map .dict es, h => by
      simp only [isPlain, Bool.and_eq_true] at h
      exact entriesEncodable_of_plain es h.2
  | .map .proxy _, h => by simp [isPlain] at h
theorem itemsEncodable_of_plain :
    ∀ xs : List PyVal, itemsPlain xs = true → itemsEncodable xs = true
  | [], _ => rfl
  | x :: xs, h => by
      simp only [itemsPlain, Bool.and_eq_true] at h
      simp [itemsEncodable, encodable_of_plain x h.1, itemsEncodable_of_plain xs h.2]
theorem entriesEncodable_of_plain :
    ∀ es : List (String × PyVal), entriesPlain es = true → entriesEncodable es = true
  | [], _ => rfl
  | (_, x) :: es, h => by
      simp only [entriesPlain, Bool.and_eq_true] at h
      simp [entriesEncodable, encodable_of_plain x h.1, entriesEncodable_of_plain es h.2]
end

mutual
theorem encodable_stored : ∀ v : PyVal, encodable (stored v) = v.mapFree
  | .null | .bool _ | .int _ | .float _ | .str _ => rfl
  | .seq _ xs => by
      rw [stored_seq]
      exact itemsEncodable_stored xs
  | .map _ _ => rfl
theorem itemsEncodable_stored : ∀ xs : List PyVal,
    itemsEncodable (xs.map stored) = itemsMapFree xs
  | [] => rfl
  | x :: xs => by simp [itemsEncodable, itemsMapFree, encodable_stored x, itemsEncodable_stored xs]
end

theorem encodable_toDict (o : JsonObject) : encodable o.toDict = true :=
  encodable_of_plain _ o.plain

namespace Message

theorem encodable_contentValue (message : Message) : encodable message.contentValue = true := by
  unfold contentValue
  cases message.content with
  | none => rfl
  | text s => rfl
  | parts views =>
      refine itemsEncodable_iff.2 fun x hx => ?_
      obtain ⟨o, -, rfl⟩ := List.mem_map.1 hx
      exact encodable_toDict o

theorem encodable_toDict (message : Message) : encodable message.toDict = true := by
  have hcall : ∀ call : ToolCall, encodable call.toDict = true := by
    intro call
    simp [ToolCall.toDict, dict, encodable, entriesEncodable, Polaris.encodable_toDict]
  refine entriesEncodable_iff.2 fun e he => ?_
  simp only [List.mem_append, List.mem_cons, List.not_mem_nil, or_false, Option.mem_toList,
    Option.map_eq_some_iff] at he
  rcases he with ((((rfl | rfl) | ⟨name, -, rfl⟩) | he) | ⟨id, -, rfl⟩)
  · rfl
  · exact message.encodable_contentValue
  · rfl
  · split at he
    · simp at he
    · obtain rfl := List.mem_singleton.1 he
      refine itemsEncodable_iff.2 fun x hx => ?_
      obtain ⟨call, -, rfl⟩ := List.mem_map.1 hx
      exact hcall call
  · rfl

theorem encodable_responsesItems {message : Message} {v : PyVal} (h : v ∈ responsesItems message) :
    encodable v = true := by
  unfold responsesItems at h
  split at h
  · obtain rfl := List.mem_singleton.1 h
    cases hid : message.toolCallId <;>
      simp [dict, encodable, entriesEncodable, optStr]
  · rcases List.mem_append.1 h with h | h
    · split at h
      · simp at h
      · obtain rfl := List.mem_singleton.1 h
        simp [dict, encodable, entriesEncodable, message.encodable_contentValue]
    · obtain ⟨call, -, rfl⟩ := List.mem_map.1 h
      simp [dict, encodable, entriesEncodable]

end Message

namespace ToolEntry

theorem functionEntries_plain (entry : ToolEntry) :
    (PyVal.map .dict entry.functionEntries).isPlain = true := by
  have hschema := entry.schema.plain
  have hset : ∀ {k s : String} {es : List (String × PyVal)},
      (PyVal.map .dict es).isPlain = true → (PyVal.map .dict (setKey k (.str s) es)).isPlain = true := by
    intro k s es h
    simp only [isPlain, Bool.and_eq_true, decide_eq_true_eq, entriesPlain_iff] at h ⊢
    refine ⟨setKey_nodup _ _ h.1, fun e he => ?_⟩
    rcases mem_setKey he with rfl | he
    · rfl
    · exact h.2 e he
  simp only [functionEntries]
  split
  · exact hset (hset hschema)
  · exact hset hschema

theorem functionEntries_name (entry : ToolEntry) :
    lookup "name" entry.functionEntries = some (.str entry.name) := by
  simp only [functionEntries]
  split <;> simp [lookup_setKey]

def definitionEntries (entry : ToolEntry) : List (String × PyVal) :=
  [("type", .str "function"), ("function", dict entry.functionEntries)]

theorem definition_plain (entry : ToolEntry) : entry.definition.isPlain = true := by
  have h := entry.functionEntries_plain
  simp [definition, dict, isPlain, entriesPlain] at h ⊢
  exact h

theorem getOrNone_stored (entry : ToolEntry) (key : String) :
    getOrNone key (storedEntries entry.functionEntries) =
      stored (getOrNone key entry.functionEntries) := by
  have hplain := entry.functionEntries_plain
  simp only [isPlain, Bool.and_eq_true, decide_eq_true_eq] at hplain
  simp only [getOrNone, lookup_storedEntries, lastOf_of_nodup key hplain.1]
  cases lookup key entry.functionEntries <;> rfl

theorem sentEntries_stored (entry : ToolEntry) :
    sentEntries (storedEntries entry.functionEntries) =
      (sentEntries entry.functionEntries).map fun e => (e.1, stored e.2) := by
  simp only [sentEntries, List.map_filterMap]
  refine List.filterMap_congr fun key _ => ?_
  rw [getOrNone_stored]
  cases getOrNone key entry.functionEntries <;> simp

theorem sentEntries_name (entry : ToolEntry) :
    ∃ rest, sentEntries entry.functionEntries = ("name", .str entry.name) :: rest := by
  simp [sentEntries, responseKeys, getOrNone, functionEntries_name]

end ToolEntry

namespace ProviderApi

def plainTool (entry : ToolEntry) : ProviderApi → List (String × PyVal)
  | .chatCompletions | .ollama => entry.definitionEntries
  | .responses => ("type", .str "function") :: sentEntries entry.functionEntries

def storedTool (entry : ToolEntry) : ProviderApi → List (String × PyVal)
  | .chatCompletions | .ollama => storedEntries entry.definitionEntries
  | .responses => ("type", .str "function") ::
      (sentEntries entry.functionEntries).map fun e => (e.1, stored e.2)

theorem lookup_storedDefinition (entry : ToolEntry) :
    lookup "type" (storedEntries entry.definitionEntries) = some (.str "function") ∧
      lookup "function" (storedEntries entry.definitionEntries) =
        some (.map .proxy (storedEntries entry.functionEntries)) := by
  constructor <;> simp [lookup_storedEntries, ToolEntry.definitionEntries, lastOf, lookup, dict]

theorem normalizeTool_definition (entry : ToolEntry) (api : ProviderApi) :
    api.normalizeTool entry.definition = .ok (api.plainTool entry) := by
  have hdef : entry.definition = .map .dict entry.definitionEntries := rfl
  have htype : isFunctionTool entry.definitionEntries = true := by
    simp [isFunctionTool, ToolEntry.definitionEntries, lookup]
  have hfunction : getOrNone "function" entry.definitionEntries =
      .map .dict entry.functionEntries := by
    simp [getOrNone, ToolEntry.definitionEntries, lookup, dict]
  cases api with
  | chatCompletions =>
      simp [normalizeTool, normalizeChatTool, hdef, withGet, htype, hfunction, isMapping, plainTool,
        bind, Except.bind, pure, Except.pure]
  | ollama =>
      simp [normalizeTool, normalizeOllamaTool, hdef, withGet, htype, plainTool, bind, Except.bind,
        pure, Except.pure]
  | responses =>
      obtain ⟨rest, hrest⟩ := entry.sentEntries_name
      have hraw : rawFunction entry.definitionEntries = entry.functionEntries := by
        simp [rawFunction, htype, hfunction]
      simp [normalizeTool, normalizeResponseTool, hdef, withGet, hraw, hrest, getOrNone, lookup,
        plainTool, bind, Except.bind, pure, Except.pure]

theorem normalizeTool_stored (entry : ToolEntry) (api : ProviderApi) :
    api.normalizeTool (stored entry.definition) = .ok (api.storedTool entry) := by
  have hdef : stored entry.definition = .map .proxy (storedEntries entry.definitionEntries) := rfl
  obtain ⟨htype, hfunction⟩ := lookup_storedDefinition entry
  cases api with
  | chatCompletions =>
      simp [normalizeTool, normalizeChatTool, hdef, withGet, isFunctionTool, htype, getOrNone,
        hfunction, isMapping, storedTool, bind, Except.bind, pure, Except.pure]
  | ollama =>
      simp [normalizeTool, normalizeOllamaTool, hdef, withGet, isFunctionTool, htype, storedTool,
        bind, Except.bind, pure, Except.pure]
  | responses =>
      obtain ⟨rest, hrest⟩ := entry.sentEntries_name
      have hraw : rawFunction (storedEntries entry.definitionEntries) =
          storedEntries entry.functionEntries := by
        simp [rawFunction, isFunctionTool, htype, getOrNone, hfunction]
      have hsent := entry.sentEntries_stored
      rw [hrest] at hsent
      simp [normalizeTool, normalizeResponseTool, hdef, withGet, hraw, hsent, hrest, getOrNone,
        lookup, storedTool, bind, Except.bind, pure, Except.pure]

theorem encodable_bodyOf (model : String) (messages : List Message) (api : ProviderApi) :
    entriesEncodable (api.bodyOf model messages) = true := by
  have hmessages : itemsEncodable (messages.map Message.toDict) = true := by
    refine itemsEncodable_iff.2 fun x hx => ?_
    obtain ⟨message, -, rfl⟩ := List.mem_map.1 hx
    exact message.encodable_toDict
  have hitems : itemsEncodable (messages.flatMap responsesItems) = true := by
    refine itemsEncodable_iff.2 fun x hx => ?_
    obtain ⟨message, -, hitem⟩ := List.mem_flatMap.1 hx
    exact Message.encodable_responsesItems hitem
  cases api
  · simp [bodyOf, entriesEncodable, hmessages, encodable]
  · simp [bodyOf, entriesEncodable, hitems, encodable]
  · simp [bodyOf, entriesEncodable, hmessages, encodable]

def Accepts (model : String) (api : ProviderApi) (request : List Message × PyVal) : Prop :=
  ∃ body, api.requestBody model request.1 request.2 = .ok body ∧ encodable body = true

theorem accepts_iff {model : String} {messages : List Message} {kind : SeqKind}
    {items : List ToolEntry} {tool : ToolEntry → PyVal} {sent : ToolEntry → List (String × PyVal)}
    {api : ProviderApi} (h : ∀ entry, api.normalizeTool (tool entry) = .ok (sent entry)) :
    Accepts model api (messages, .seq kind (items.map tool)) ↔
      ∀ entry ∈ items, entriesEncodable (sent entry) = true := by
  have hmap : (items.map tool).mapM api.normalizeTool = .ok (items.map sent) := by
    have hif := mapM_map_eq (f := api.normalizeTool) (g := tool) (p := fun _ => true) (h := sent)
      (e := typeError "") (fun entry => h entry) items
    simpa using hif
  have hbody : api.requestBody model messages (.seq kind (items.map tool)) =
      .ok (dict (api.bodyOf model messages ++
        [("tools", .seq .list (items.map fun entry => dict (sent entry)))])) := by
    simp [requestBody, sentTools, iterate, hmap, dictOf, bind, Except.bind, pure, Except.pure,
      Function.comp_def]
  simp only [Accepts, hbody, Except.ok.injEq, exists_eq_left']
  rw [dict, encodable, entriesEncodable_iff]
  simp only [List.mem_append, List.mem_singleton, or_imp, forall_and, forall_eq]
  rw [← entriesEncodable_iff]
  simp [encodable_bodyOf, encodable, itemsEncodable_iff, dict]

theorem plainTool_encodable (entry : ToolEntry) (api : ProviderApi) :
    entriesEncodable (api.plainTool entry) = true := by
  have hplain := entry.functionEntries_plain
  have hdef : entriesEncodable entry.definitionEntries = true :=
    encodable_of_plain _ entry.definition_plain
  cases api with
  | chatCompletions | ollama => exact hdef
  | responses =>
      simp only [isPlain, Bool.and_eq_true, entriesPlain_iff] at hplain
      refine entriesEncodable_iff.2 fun e he => ?_
      rcases List.mem_cons.1 he with rfl | he
      · rfl
      · obtain ⟨key, -, hkey⟩ := List.mem_filterMap.1 he
        cases hlookup : lookup key entry.functionEntries with
        | none => simp [getOrNone, hlookup] at hkey
        | some v =>
            have hv := encodable_of_plain v (hplain.2 _ (mem_of_lookup hlookup))
            simp only [getOrNone, hlookup, Option.getD_some] at hkey
            split at hkey
            · simp at hkey
            · obtain rfl := Option.some.inj hkey
              exact hv

theorem storedTool_encodable_iff (entry : ToolEntry) (api : ProviderApi) :
    entriesEncodable (api.storedTool entry) = true ↔
      api = .responses ∧ ∀ e ∈ sentEntries entry.functionEntries, e.2.mapFree = true := by
  have hproxy : entriesEncodable (storedEntries entry.definitionEntries) ≠ true := by
    intro h
    have hfunction := mem_of_lookup (lookup_storedDefinition entry).2
    simpa [encodable] using entriesEncodable_iff.1 h _ hfunction
  cases api with
  | chatCompletions | ollama => simpa [storedTool] using hproxy
  | responses =>
      rw [storedTool, entriesEncodable_iff]
      simp only [List.mem_cons, List.mem_map, true_and]
      constructor
      · intro h e he
        simpa [encodable_stored] using h _ (.inr ⟨e, he, rfl⟩)
      · rintro h e (rfl | ⟨f, hf, rfl⟩)
        · rfl
        · exact (encodable_stored f.2).trans (h f hf)

/-- No tool is sent, or the API sends nothing nested of any tool. -/
def Resends (tools : List ToolEntry) (api : ProviderApi) : Prop :=
  ∀ entry ∈ tools,
    api = .responses ∧ ∀ e ∈ sentEntries entry.functionEntries, e.2.mapFree = true

instance (tools : List ToolEntry) (api : ProviderApi) : Decidable (api.Resends tools) :=
  inferInstanceAs (Decidable (∀ entry ∈ tools, _))

theorem accepts_definitions (model : String) (messages : List Message) (tools : List ToolEntry)
    (api : ProviderApi) :
    Accepts model api (messages, .seq .list (tools.map ToolEntry.definition)) :=
  (accepts_iff fun entry => normalizeTool_definition entry api).2 fun entry _ =>
    api.plainTool_encodable entry

theorem accepts_stored_iff {model : String} {messages : List Message} {tools : List ToolEntry}
    {api : ProviderApi} :
    Accepts model api (messages, .seq .tuple (tools.map fun entry => stored entry.definition)) ↔
      api.Resends tools :=
  (accepts_iff fun entry => normalizeTool_stored entry api).trans
    (forall₂_congr fun entry _ => api.storedTool_encodable_iff entry)

end ProviderApi

end Polaris
