import Polaris.Runtime.Serialization

namespace Polaris
open PyJson PyVal SortedDict

def notJson (fieldName : String) : PyError :=
  typeError (fieldName ++ " must contain only JSON values")

mutual
theorem jsonCopy_deepFreeze (fieldName : String) : ∀ v : PyVal, IsNormal v →
    jsonCopy fieldName (deepFreeze v) = if v.arrayFree then .ok v else .error (notJson fieldName)
  | .null, _ | .bool _, _ | .int _, _ | .float _, _ | .str _, _ => rfl
  | .seq _ xs, h => by
      obtain ⟨rfl, -⟩ := h
      rfl
  | .map _ es, h => by
      obtain ⟨rfl, hsorted, hes⟩ := h
      simp only [deepFreeze, jsonCopy, copyEntries_freezeEntries fieldName es hes, arrayFree]
      by_cases hfree : entriesArrayFree es = true <;>
        simp [hfree, ofPairs_of_sorted hsorted, bind, Except.bind, pure, Except.pure]
theorem copyEntries_freezeEntries (fieldName : String) :
    ∀ es : List (String × PyVal), EntriesNormal es →
    copyEntries fieldName (freezeEntries es) =
      if entriesArrayFree es then .ok es else .error (notJson fieldName)
  | [], _ => rfl
  | (k, x) :: es, h => by
      simp only [freezeEntries, copyEntries, jsonCopy_deepFreeze fieldName x h.1,
        copyEntries_freezeEntries fieldName es h.2, entriesArrayFree, Bool.and_eq_true]
      by_cases hx : x.arrayFree = true <;> by_cases hes : entriesArrayFree es = true <;>
        simp [hx, hes, bind, Except.bind, pure, Except.pure]
end

mutual
theorem isPlain_of_isNormal : ∀ v : PyVal, IsNormal v → v.isPlain = true
  | .null, _ | .bool _, _ | .int _, _ | .float _, _ | .str _, _ => rfl
  | .seq _ xs, h => by
      obtain ⟨rfl, hxs⟩ := h
      exact itemsPlain_of_allNormal xs hxs
  | .map _ es, h => by
      obtain ⟨rfl, hsorted, hes⟩ := h
      simp only [isPlain, Bool.and_eq_true, decide_eq_true_eq]
      exact ⟨hsorted.keys_nodup, entriesPlain_of_entriesNormal es hes⟩
theorem itemsPlain_of_allNormal : ∀ xs : List PyVal, AllNormal xs → itemsPlain xs = true
  | [], _ => rfl
  | x :: xs, h => by
      simp [itemsPlain, isPlain_of_isNormal x h.1, itemsPlain_of_allNormal xs h.2]
theorem entriesPlain_of_entriesNormal :
    ∀ es : List (String × PyVal), EntriesNormal es → entriesPlain es = true
  | [], _ => rfl
  | (_, x) :: es, h => by
      simp [entriesPlain, isPlain_of_isNormal x h.1, entriesPlain_of_entriesNormal es h.2]
end

namespace JsonObject

theorem normal_toDict (o : JsonObject) :
    o.toDict.normal = .map .dict (sortKeys (normalEntries o.entries)) := rfl

def normal (o : JsonObject) : JsonObject :=
  ⟨sortKeys (normalEntries o.entries), isPlain_of_isNormal _ (normal_isNormal o.toDict)⟩

def arrayFree (o : JsonObject) : Bool := o.toDict.normal.arrayFree

def allFinite (o : JsonObject) : Bool := o.toDict.allFinite

@[simp] theorem normal_normal (o : JsonObject) : o.normal.normal = o.normal := by
  have h := normal_of_isNormal _ (normal_isNormal o.toDict)
  have hentries : sortKeys (normalEntries (sortKeys (normalEntries o.entries))) =
      sortKeys (normalEntries o.entries) := by
    simpa [normal_toDict, PyVal.normal] using h
  simp [normal, hentries]

theorem ofValue_of_copy {fieldName notMapping : String} {v : PyVal} {o : JsonObject}
    (h : jsonCopy fieldName v = .ok o.toDict) : ofValue fieldName notMapping v = .ok o := by
  unfold ofValue
  split
  · rename_i e he
    simp [h] at he
  · rename_i es hes
    obtain rfl : o.entries = es := by simpa [h, toDict, dict] using hes
    rfl
  · rename_i w hnot hw
    rw [h] at hw
    exact absurd (Except.ok.inj hw).symm (hnot o.entries)

theorem ofValue_of_error {fieldName notMapping : String} {v : PyVal} {e : PyError}
    (h : jsonCopy fieldName v = .error e) : ofValue fieldName notMapping v = .error e := by
  unfold ofValue
  split
  · rename_i e' he
    rw [h] at he
    exact congrArg _ (Except.error.inj he).symm
  · rename_i es hes
    simp [h] at hes
  · rename_i w hnot hw
    simp [h] at hw

theorem ofValue_stored (fieldName notMapping : String) (o : JsonObject) :
    ofValue fieldName notMapping (stored o.toDict) =
      if o.arrayFree then .ok o.normal else .error (notJson fieldName) := by
  have h := jsonCopy_deepFreeze fieldName o.toDict.normal (normal_isNormal _)
  by_cases hfree : o.arrayFree = true
  · rw [if_pos hfree]
    exact ofValue_of_copy (h.trans (if_pos hfree))
  · rw [if_neg hfree]
    exact ofValue_of_error (h.trans (if_neg hfree))

end JsonObject

@[simp] theorem requireStr_val (s : NonBlank) (fieldName : String) :
    requireStr s.1 fieldName = .ok s := by
  simp [requireStr, s.2]

@[simp] theorem optionalStr_stored (fieldName : String) (s : Option String) :
    optionalStr fieldName (stored (optStr s)) = .ok s := by
  cases s <;> rfl

theorem mapM_map_eq {α β γ : Type} {f : β → Except PyError γ} {g : α → β} {p : α → Bool}
    {h : α → γ} {e : PyError} (hf : ∀ x, f (g x) = if p x then .ok (h x) else .error e)
    (xs : List α) :
    (xs.map g).mapM f = if xs.all p then .ok (xs.map h) else .error e := by
  induction xs with
  | nil => rfl
  | cons x xs ih =>
      simp only [List.map_cons, List.mapM_cons, hf, ih, List.all_cons, Bool.and_eq_true]
      by_cases hx : p x = true <;> by_cases hxs : xs.all p = true <;>
        simp [hx, hxs, bind, Except.bind, pure, Except.pure]

namespace ToolCall

def normal (call : ToolCall) : ToolCall := { call with arguments := call.arguments.normal }

def arrayFree (call : ToolCall) : Bool := call.arguments.arrayFree

theorem deserialize_stored (py : PyBuiltins) (call : ToolCall) :
    deserializeToolCall py (stored (serializeToolCall call)) =
      if call.arrayFree then .ok call.normal else .error (notJson "ToolCall.arguments") := by
  have hcopy := call.arguments.ofValue_stored "ToolCall.arguments"
    "ToolCall.arguments must be a mapping"
  have hmap : requireMapping "serialized tool call arguments must be a mapping"
      (stored call.arguments.toDict) = .ok (storedEntries call.arguments.entries) := rfl
  simp only [serializeToolCall, dict, stored_map, deserializeToolCall, withGet, getItem,
    lookup_storedEntries, lastOf, lookup, List.reverse_cons, List.reverse_nil, List.nil_append,
    List.cons_append, String.reduceEq, if_true, if_false, Option.map_some,
    Option.getD_some, stored_str, PyBuiltins.strOf, ToolCall.make, requireStr_val, hcopy, hmap,
    bind, Except.bind, arrayFree]
  by_cases hfree : call.arguments.arrayFree = true <;> simp [hfree, normal, pure, Except.pure]

end ToolCall

def Content.normal : Content → Content
  | .none => .none
  | .text s => .text s
  | .parts views => .parts (views.map JsonObject.normal)

def Content.objects : Content → List JsonObject
  | .parts views => views
  | _ => []

namespace Message

def objects (message : Message) : List JsonObject :=
  message.toolCalls.map ToolCall.arguments ++ message.content.objects

def normal (message : Message) : Message :=
  { message with
    content := message.content.normal, toolCalls := message.toolCalls.map ToolCall.normal }

def arrayFree (message : Message) : Bool :=
  message.toolCalls.all ToolCall.arrayFree && message.content.objects.all JsonObject.arrayFree

@[simp] theorem normal_normal (message : Message) : message.normal.normal = message.normal := by
  have hcalls : ∀ call : ToolCall, call.normal.normal = call.normal := by
    intro call
    simp [ToolCall.normal]
  have hcontent : message.content.normal.normal = message.content.normal := by
    cases message.content <;> simp [Content.normal]
  simp [normal, hcontent, Function.comp_def, hcalls]

theorem copyContent_stored (message : Message) :
    copyContent (stored message.contentValue) =
      if message.content.objects.all JsonObject.arrayFree then .ok message.content.normal
      else .error (notJson "Message.content") := by
  unfold contentValue
  cases message.content with
  | none => rfl
  | text s => rfl
  | parts parts =>
      have hparts := mapM_map_eq (f := copyPart) (g := fun o => stored (JsonObject.toDict o))
        (fun o => o.ofValue_stored "Message.content" "Message content parts must be mappings") parts
      simp only [stored_seq, copyContent, List.map_map, Function.comp_def, hparts, Content.objects]
      by_cases hfree : parts.all JsonObject.arrayFree = true <;>
        simp [hfree, Content.normal, bind, Except.bind, pure, Except.pure]

theorem requireContent_stored (message : Message) :
    requireContent (stored message.contentValue) = .ok () := by
  unfold contentValue
  cases message.content with
  | none => rfl
  | text s => rfl
  | parts parts => simp [requireContent, isMapping, JsonObject.toDict, dict]

theorem make_stored (py : PyBuiltins) (message : Message) (toolCalls : List ToolCall) :
    make py (.str message.role.value) (stored message.contentValue) (stored (optStr message.name))
        toolCalls (stored (optStr message.toolCallId)) =
      if message.content.objects.all JsonObject.arrayFree then
        .ok { message with content := message.content.normal, toolCalls := toolCalls }
      else .error (notJson "Message.content") := by
  have hrole : knownRole py (.str message.role.value) = .ok message.role := by
    simp [knownRole, requireHashable, unhashable, bind, Except.bind, pure, Except.pure]
  simp only [make, hrole, optionalStr_stored, copyContent_stored, bind, Except.bind]
  by_cases hfree : message.content.objects.all JsonObject.arrayFree = true
  · simp only [hfree, if_true]
    rw [dif_pos message.toolHasId]
    rfl
  · simp [hfree]

theorem deserialize_stored (py : PyBuiltins) (message : Message) :
    (∃ es, stored (serializeMessage message) = .map .proxy es ∧
      deserializeMessage py es =
        if message.toolCalls.all ToolCall.arrayFree then
          if message.content.objects.all JsonObject.arrayFree then .ok message.normal
          else .error (notJson "Message.content")
        else .error (notJson "ToolCall.arguments")) := by
  have hcalls := mapM_map_eq (f := deserializeToolCall py)
    (g := fun call => stored (serializeToolCall call)) (ToolCall.deserialize_stored py)
    message.toolCalls
  refine ⟨_, stored_map .dict _, ?_⟩
  simp only [deserializeMessage, callsOf, getItem, getOrNone,
    lookup_storedEntries, lastOf, lookup, List.reverse_cons, List.reverse_nil, List.nil_append,
    List.cons_append, String.reduceEq, if_true, if_false, Option.map_some,
    Option.getD_some, stored_str, stored_seq, List.map_map, Function.comp_def,
    requireContent_stored, hcalls, make_stored, bind, Except.bind]
  by_cases hfree : message.toolCalls.all ToolCall.arrayFree = true
  · simp [hfree, normal]
  · simp [hfree]

end Message

namespace Usage

@[simp] theorem tokens_cast (name : String) (n : ℕ) : tokens name (n : ℤ) = .ok n := by
  simp [tokens]

@[simp] theorem duration_stored (name : String) (n : Option ℕ) :
    duration name (stored (optNat n)) = .ok n := by
  cases n <;> simp [optNat, duration]

theorem deserialize_stored (py : PyBuiltins) (usage : Usage) :
    deserializeUsage py (storedEntries (usageEntries usage)) = .ok usage := by
  have hcount : ∀ key (n : ℕ), lastOf key (usageEntries usage) = some (.int n) →
      usageCount py key (storedEntries (usageEntries usage)) = .ok (n : ℤ) := by
    intro key n h
    simp [usageCount, lookup_storedEntries, h, PyBuiltins.intOf]
  have hduration : ∀ key (n : Option ℕ), lastOf key (usageEntries usage) = some (optNat n) →
      duration key (getOrNone key (storedEntries (usageEntries usage))) = .ok n := by
    intro key n h
    simp [getOrNone, lookup_storedEntries, h]
  have hprompt := hcount "prompt_tokens" usage.promptTokens (by simp [lastOf, lookup, usageEntries])
  have hcompletion := hcount "completion_tokens" usage.completionTokens
    (by simp [lastOf, lookup, usageEntries])
  have htotal := hcount "total_tokens" usage.totalTokens (by simp [lastOf, lookup, usageEntries])
  have htotalTime := hduration "total_duration_ns" usage.totalDurationNs
    (by simp [lastOf, lookup, usageEntries])
  have hload := hduration "load_duration_ns" usage.loadDurationNs
    (by simp [lastOf, lookup, usageEntries])
  have hpromptTime := hduration "prompt_eval_duration_ns" usage.promptEvalDurationNs
    (by simp [lastOf, lookup, usageEntries])
  have heval := hduration "eval_duration_ns" usage.evalDurationNs
    (by simp [lastOf, lookup, usageEntries])
  simp only [deserializeUsage, hprompt, hcompletion, htotal, make, tokens_cast, htotalTime, hload,
    hpromptTime, heval, bind, Except.bind, pure, Except.pure]

end Usage

namespace CompletionResult

def normal (c : CompletionResult) : CompletionResult := { c with message := c.message.normal }

def SameJson (c d : CompletionResult) : Prop := d.normal = c.normal

def arrayFree (c : CompletionResult) : Bool := c.message.arrayFree

theorem deserialize_stored (py : PyBuiltins) (c : CompletionResult) :
    (c.arrayFree = true →
      deserializeCompletion py (stored (serializeCompletion c)) = .ok c.normal) ∧
    (c.arrayFree = false →
      ∃ fieldName, deserializeCompletion py (stored (serializeCompletion c)) =
        .error (notJson fieldName)) := by
  obtain ⟨messageEntries, hmessage, hread⟩ := c.message.deserialize_stored py
  have hcount := c.usage.deserialize_stored py
  have husage : stored (serializeUsage c.usage) = .map .proxy (storedEntries (usageEntries c.usage)) :=
    rfl
  have hresult : deserializeCompletion py (stored (serializeCompletion c)) =
      deserializeMessage py messageEntries >>= fun message =>
        .ok { c with message := message } := by
    simp only [serializeCompletion, deserializeCompletion, withGet, dict, stored_map, getOrNone,
      getItem, lookup_storedEntries, lastOf, lookup, List.reverse_cons, List.reverse_nil,
      List.nil_append, List.cons_append, String.reduceEq, if_true, if_false, Option.map_some,
      Option.getD_some, hmessage, husage, hcount, requireMapping, stored_str, PyBuiltins.strOf,
      make, requireStr_val, optionalStr_stored, bind, Except.bind, pure, Except.pure]
  rw [hresult, hread]
  simp only [arrayFree, Message.arrayFree]
  by_cases hcalls : c.message.toolCalls.all ToolCall.arrayFree = true <;>
    by_cases hparts : c.message.content.objects.all JsonObject.arrayFree = true
  · simp [hcalls, hparts, normal, bind, Except.bind]
  · simp [hcalls, hparts, bind, Except.bind]
  · simp [hcalls, hparts, bind, Except.bind]
  · simp [hcalls, hparts, bind, Except.bind]

theorem arrayFree_iff (c : CompletionResult) :
    c.arrayFree = true ↔ ∀ o ∈ c.message.objects, o.arrayFree = true := by
  simp only [arrayFree, Message.arrayFree, Message.objects, Bool.and_eq_true, List.all_eq_true,
    List.mem_append,
    List.mem_map]
  constructor
  · rintro ⟨hcalls, hparts⟩ o (⟨call, hcall, rfl⟩ | ho)
    · exact hcalls call hcall
    · exact hparts o ho
  · intro h
    exact ⟨fun call hcall => h _ (.inl ⟨call, hcall, rfl⟩), fun o ho => h o (.inr ho)⟩

theorem itemsFinite_map {α : Type} (f : α → PyVal) (xs : List α) :
    itemsFinite (xs.map f) = xs.all fun x => (f x).allFinite := by
  induction xs with
  | nil => rfl
  | cons x xs ih => simp [itemsFinite, ih]

theorem optStr_allFinite (s : Option String) : (optStr s).allFinite = true := by
  cases s <;> rfl

theorem optNat_allFinite (n : Option ℕ) : (optNat n).allFinite = true := by
  cases n <;> rfl

theorem contentValue_allFinite (message : Message) :
    message.contentValue.allFinite = message.content.objects.all JsonObject.allFinite := by
  unfold Message.contentValue
  cases message.content with
  | none => rfl
  | text s => rfl
  | parts views => exact itemsFinite_map _ views

theorem allFinite_iff (c : CompletionResult) :
    (serializeCompletion c).allFinite = true ↔ ∀ o ∈ c.message.objects, o.allFinite = true := by
  have hcall : ∀ call : ToolCall,
      (serializeToolCall call).allFinite = call.arguments.allFinite := by
    intro call
    simp [serializeToolCall, dict, allFinite, entriesFinite, JsonObject.allFinite]
  have husage : (serializeUsage c.usage).allFinite = true := by
    simp [serializeUsage, usageEntries, dict, allFinite, entriesFinite, optNat_allFinite]
  have hmessage : (serializeMessage c.message).allFinite =
      (c.message.content.objects.all JsonObject.allFinite &&
        c.message.toolCalls.all fun call => call.arguments.allFinite) := by
    simp [serializeMessage, dict, allFinite, entriesFinite, contentValue_allFinite,
      optStr_allFinite, itemsFinite_map, hcall]
  have hresult : (serializeCompletion c).allFinite = (serializeMessage c.message).allFinite := by
    simp [serializeCompletion, dict, allFinite, entriesFinite, husage, optStr_allFinite]
  rw [hresult, hmessage, Bool.and_eq_true, List.all_eq_true, List.all_eq_true]
  simp only [Message.objects, List.mem_append, List.mem_map]
  constructor
  · rintro ⟨hparts, hcalls⟩ o (⟨call, hmem, rfl⟩ | ho)
    · exact hcalls call hmem
    · exact hparts o ho
  · intro h
    exact ⟨fun o ho => h o (.inr ho), fun call hmem => h _ (.inl ⟨call, hmem, rfl⟩)⟩

def reread (py : PyBuiltins) (c : CompletionResult) : Except PyError CompletionResult := do
  let column ← canonicalJson (serializeCompletion c)
  let value ← decodeJson column.text
  deserializeCompletion py value

theorem reread_of_allFinite {py : PyBuiltins} {c : CompletionResult}
    (h : (serializeCompletion c).allFinite = true) :
    reread py c = deserializeCompletion py (stored (serializeCompletion c)) := by
  obtain ⟨column, hcolumn⟩ := canonicalJson_of_allFinite h
  obtain ⟨-, hvalue, -⟩ := canonicalJson_eq_ok hcolumn
  simp only [reread, hcolumn, bind, Except.bind, column.decodes, hvalue]

@[simp] theorem normal_normal (c : CompletionResult) : c.normal.normal = c.normal := by
  simp [normal]

end CompletionResult

open CompletionResult

theorem completion_survives_iff (py : PyBuiltins) (c : CompletionResult) :
    (∃ d, reread py c = .ok d ∧ c.SameJson d) ↔
      ∀ o ∈ c.message.objects, o.allFinite = true ∧ o.arrayFree = true := by
  constructor
  · rintro ⟨d, hd, -⟩
    have hfinite : (serializeCompletion c).allFinite = true := by
      simp only [reread, bind_eq_ok] at hd
      obtain ⟨column, hcolumn, -⟩ := hd
      exact (canonicalJson_eq_ok hcolumn).1
    have hfree : c.arrayFree = true := by
      by_contra hnot
      obtain ⟨fieldName, herror⟩ := (c.deserialize_stored py).2 (by simpa using hnot)
      rw [reread_of_allFinite hfinite, herror] at hd
      simp at hd
    exact fun o ho => ⟨c.allFinite_iff.1 hfinite o ho, c.arrayFree_iff.1 hfree o ho⟩
  · intro h
    refine ⟨c.normal, ?_, c.normal_normal⟩
    rw [reread_of_allFinite (c.allFinite_iff.2 fun o ho => (h o ho).1)]
    exact (c.deserialize_stored py).1 (c.arrayFree_iff.2 fun o ho => (h o ho).2)

def listingCompletion : CompletionResult :=
  ⟨⟨.assistant, .none, none,
      [⟨⟨"call-1", by decide⟩, ⟨"list_files", by decide⟩,
        ⟨[("paths", .seq .list [.str "a"])], by decide⟩⟩], none, by simp⟩,
    ⟨"model", by decide⟩, ⟨0, 0, 0, none, none, none, none⟩, none, none⟩

theorem not_every_completion_survives :
    ¬ ∀ (py : PyBuiltins) (c : CompletionResult), (∀ o ∈ c.message.objects, o.allFinite = true) →
      ∃ d, reread py c = .ok d ∧ c.SameJson d := by
  intro h
  let py : PyBuiltins := ⟨fun _ => "", fun _ => "", fun _ => .error (typeError "int"), fun _ _ => false⟩
  have hfinite : ∀ o ∈ listingCompletion.message.objects, o.allFinite = true := by decide
  obtain ⟨d, hd, -⟩ := h py listingCompletion hfinite
  obtain ⟨fieldName, herror⟩ := (listingCompletion.deserialize_stored py).2 (by decide +kernel)
  rw [reread_of_allFinite (listingCompletion.allFinite_iff.2 hfinite), herror] at hd
  simp at hd

end Polaris
