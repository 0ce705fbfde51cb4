import Polaris.Library.PyJsonPlain
import Polaris.Runtime.CompletionRoundTrip

namespace Polaris
open PyJson PyVal SortedDict

mutual
def isFrozen : PyVal → Bool
  | .seq .tuple xs => itemsFrozen xs
  | .seq .list _ => false
  | .map .proxy es => entriesFrozen es
  | .map .dict _ => false
  | _ => true
def itemsFrozen : List PyVal → Bool
  | [] => true
  | x :: xs => isFrozen x && itemsFrozen xs
def entriesFrozen : List (String × PyVal) → Bool
  | [] => true
  | (_, x) :: es => isFrozen x && entriesFrozen es
end

theorem itemsFrozen_iff {xs : List PyVal} :
    itemsFrozen xs = true ↔ ∀ x ∈ xs, isFrozen x = true := by
  induction xs with
  | nil => simp [itemsFrozen]
  | cons x xs ih => simp [itemsFrozen, ih]

mutual
theorem deepFreeze_frozen : ∀ v : PyVal, v.isPlain = true → isFrozen (deepFreeze v) = true
  | .null, _ | .bool _, _ | .int _, _ | .float _, _ | .str _, _ => rfl
  | .seq .list xs, h => freezeItems_frozen xs h
  | .seq .tuple _, h => by simp [isPlain] at h
  | .map .dict es, h => by
      simp only [isPlain, Bool.and_eq_true] at h
      exact freezeEntries_frozen es h.2
  | .map .proxy _, h => by simp [isPlain] at h
theorem freezeItems_frozen :
    ∀ xs : List PyVal, itemsPlain xs = true → itemsFrozen (freezeItems xs) = true
  | [], _ => rfl
  | x :: xs, h => by
      simp only [itemsPlain, Bool.and_eq_true] at h
      simp [freezeItems, itemsFrozen, deepFreeze_frozen x h.1, freezeItems_frozen xs h.2]
theorem freezeEntries_frozen :
    ∀ es : List (String × PyVal), entriesPlain es = true → entriesFrozen (freezeEntries es) = true
  | [], _ => rfl
  | (_, x) :: es, h => by
      simp only [entriesPlain, Bool.and_eq_true] at h
      simp [freezeEntries, entriesFrozen, deepFreeze_frozen x h.1, freezeEntries_frozen es h.2]
end

theorem JsonColumn.frozen (column : JsonColumn) : isFrozen column.value = true := by
  have h := column.decodes
  unfold decodeJson at h
  split at h
  · rename_i v hv
    exact Except.ok.inj h ▸ deepFreeze_frozen v (loads_plain hv)
  · simp at h

theorem frozen_of_lookup {k : String} {es : List (String × PyVal)} {v : PyVal}
    (hes : entriesFrozen es = true) (h : lookup k es = some v) : isFrozen v = true := by
  induction es with
  | nil => simp [lookup] at h
  | cons e es ih =>
      obtain ⟨l, x⟩ := e
      simp only [entriesFrozen, Bool.and_eq_true] at hes
      simp only [lookup] at h
      split at h
      · exact Option.some.inj h ▸ hes.1
      · exact ih hes.2 h

theorem frozen_getOrNone {k : String} {es : List (String × PyVal)} (hes : entriesFrozen es = true) :
    isFrozen (getOrNone k es) = true := by
  unfold getOrNone
  cases h : lookup k es with
  | none => rfl
  | some v => exact frozen_of_lookup hes h

theorem entriesArrayFree_iff {es : List (String × PyVal)} :
    entriesArrayFree es = true ↔ ∀ e ∈ es, e.2.arrayFree = true := by
  induction es with
  | nil => simp [entriesArrayFree]
  | cons e es ih => obtain ⟨k, x⟩ := e; simp [entriesArrayFree, ih]

mutual
theorem jsonCopy_of_frozen {fieldName : String} : ∀ {v w : PyVal}, isFrozen v = true →
    jsonCopy fieldName v = .ok w → w.arrayFree = true
  | .null, w, _, h | .bool _, w, _, h | .int _, w, _, h | .float _, w, _, h | .str _, w, _, h => by
      simp only [jsonCopy, Except.ok.injEq] at h
      exact h ▸ rfl
  | .seq .list _, _, hv, _ => by simp [isFrozen] at hv
  | .seq .tuple _, _, _, h => by simp [jsonCopy] at h
  | .map .dict _, _, hv, _ => by simp [isFrozen] at hv
  | .map .proxy es, w, hv, h => by
      simp only [jsonCopy, bind_eq_ok, pure_eq_ok] at h
      obtain ⟨fs, hfs, rfl⟩ := h
      have hfree := entriesArrayFree_iff.1 (copyEntries_of_frozen hv hfs)
      exact entriesArrayFree_iff.2 fun e he => hfree e (mem_ofPairs he)
theorem copyEntries_of_frozen {fieldName : String} : ∀ {es fs : List (String × PyVal)},
    entriesFrozen es = true → copyEntries fieldName es = .ok fs → entriesArrayFree fs = true
  | [], fs, _, h => by
      simp only [copyEntries, Except.ok.injEq] at h
      exact h ▸ rfl
  | (k, x) :: es, fs, hes, h => by
      simp only [entriesFrozen, Bool.and_eq_true] at hes
      simp only [copyEntries, bind_eq_ok, pure_eq_ok] at h
      obtain ⟨y, hy, fs, hfs, rfl⟩ := h
      simp [entriesArrayFree, jsonCopy_of_frozen hes.1 hy, copyEntries_of_frozen hes.2 hfs]
end

mutual
theorem normal_arrayFree : ∀ v : PyVal, v.arrayFree = true → v.normal.arrayFree = true
  | .null, _ | .bool _, _ | .int _, _ | .float _, _ | .str _, _ => rfl
  | .seq _ _, h => by simp [arrayFree] at h
  | .map _ es, h => by
      have hes := entriesArrayFree_iff.1 (normalEntries_arrayFree es h)
      exact entriesArrayFree_iff.2 fun e he => hes e (mem_sortKeys he)
theorem normalEntries_arrayFree : ∀ es : List (String × PyVal),
    entriesArrayFree es = true → entriesArrayFree (normalEntries es) = true
  | [], _ => rfl
  | (_, x) :: es, h => by
      simp only [entriesArrayFree, Bool.and_eq_true] at h
      simp [normalEntries, entriesArrayFree, normal_arrayFree x h.1,
        normalEntries_arrayFree es h.2]
end

theorem JsonObject.ofValue_of_frozen {fieldName notMapping : String} {v : PyVal} {o : JsonObject}
    (hv : isFrozen v = true) (h : ofValue fieldName notMapping v = .ok o) :
    o.arrayFree = true := by
  unfold ofValue at h
  split at h
  · simp at h
  · rename_i es hes
    obtain rfl := Except.ok.inj h
    exact normal_arrayFree _ (jsonCopy_of_frozen hv hes)
  · simp at h

theorem deserializeToolCall_arrayFree {py : PyBuiltins} {v : PyVal} {call : ToolCall}
    (hv : isFrozen v = true) (h : deserializeToolCall py v = .ok call) :
    call.arrayFree = true := by
  simp only [deserializeToolCall, bind_eq_ok, ToolCall.make, pure_eq_ok] at h
  obtain ⟨es, hes, _, -, _, -, _, -, _, -, _, -, arguments, harguments, rfl⟩ := h
  cases v with
  | map kind fs =>
      obtain rfl := Except.ok.inj hes
      cases kind with
      | dict => simp [isFrozen] at hv
      | proxy =>
          cases hlookup : lookup "arguments" fs with
          | none =>
              rw [hlookup] at harguments
              obtain rfl := Except.ok.inj harguments
              rfl
          | some w =>
              rw [hlookup] at harguments
              exact JsonObject.ofValue_of_frozen (frozen_of_lookup hv hlookup) harguments
  | _ => simp [withGet] at hes

theorem mapM_forall {α β : Type} {f : α → Except PyError β} {P : α → Prop} {Q : β → Prop}
    (hf : ∀ x y, P x → f x = .ok y → Q y) {xs : List α} {ys : List β} (hxs : ∀ x ∈ xs, P x)
    (h : xs.mapM f = .ok ys) : ∀ y ∈ ys, Q y := by
  induction xs generalizing ys with
  | nil =>
      simp only [List.mapM_nil, pure_eq_ok] at h
      simp [← h]
  | cons x xs ih =>
      simp only [List.mapM_cons, bind_eq_ok, pure_eq_ok] at h
      obtain ⟨y, hy, zs, hzs, rfl⟩ := h
      intro z hz
      rcases List.mem_cons.1 hz with rfl | hz
      · exact hf x z (hxs x (by simp)) hy
      · exact ih (fun w hw => hxs w (List.mem_cons_of_mem _ hw)) hzs z hz

theorem copyContent_of_frozen {v : PyVal} {content : Content} (hv : isFrozen v = true)
    (h : Message.copyContent v = .ok content) : ∀ o ∈ content.objects, o.arrayFree = true := by
  cases v with
  | null =>
      obtain rfl := Except.ok.inj h
      simp [Content.objects]
  | str s =>
      obtain rfl := Except.ok.inj h
      simp [Content.objects]
  | seq kind parts =>
      cases kind with
      | list => simp [isFrozen] at hv
      | tuple =>
          simp only [Message.copyContent, bind_eq_ok, pure_eq_ok] at h
          obtain ⟨views, hviews, rfl⟩ := h
          exact mapM_forall (fun _ _ => JsonObject.ofValue_of_frozen) (itemsFrozen_iff.1 hv) hviews
  | _ => simp [Message.copyContent] at h

theorem deserializeMessage_arrayFree {py : PyBuiltins} {es : List (String × PyVal)}
    {message : Message} (hes : entriesFrozen es = true)
    (h : deserializeMessage py es = .ok message) : message.arrayFree = true := by
  simp only [deserializeMessage, bind_eq_ok, Message.make] at h
  obtain ⟨calls, hcalls, _, -, _, -, toolCalls, htool, _, -, _, -, _, -, content, hcontent, h⟩ := h
  split at h
  · rw [pure_eq_ok] at h
    subst h
    have hfrozen : ∀ v ∈ calls, isFrozen v = true := by
      unfold callsOf at hcalls
      split at hcalls
      · obtain rfl := Except.ok.inj hcalls
        simp
      · rename_i kind items hitems
        obtain rfl := Except.ok.inj hcalls
        have hseq := frozen_of_lookup hes hitems
        cases kind with
        | list => simp [isFrozen] at hseq
        | tuple => exact itemsFrozen_iff.1 hseq
      · simp at hcalls
    have hfree := mapM_forall (fun _ _ => deserializeToolCall_arrayFree) hfrozen htool
    have hobjects := copyContent_of_frozen (frozen_getOrNone hes) hcontent
    simpa [Message.arrayFree] using ⟨hfree, hobjects⟩
  · simp at h

theorem deserializeCompletion_arrayFree {py : PyBuiltins} {v : PyVal} {c : CompletionResult}
    (hv : isFrozen v = true) (h : deserializeCompletion py v = .ok c) :
    c.message.arrayFree = true := by
  simp only [deserializeCompletion, bind_eq_ok, CompletionResult.make, pure_eq_ok] at h
  obtain ⟨es, hes, messageEntries, hmessage, _, -, message, hread, _, -, _, -, _, -, _, -, _, -,
    rfl⟩ := h
  have hfrozen : entriesFrozen es = true := by
    cases v with
    | map kind fs =>
        obtain rfl := Except.ok.inj hes
        cases kind with
        | dict => simp [isFrozen] at hv
        | proxy => exact hv
    | _ => simp [withGet] at hes
  have hget := frozen_getOrNone (k := "message") hfrozen
  refine deserializeMessage_arrayFree ?_ hread
  cases hv : getOrNone "message" es with
  | map kind fs =>
      rw [hv] at hget hmessage
      obtain rfl := Except.ok.inj hmessage
      cases kind with
      | dict => simp [isFrozen] at hget
      | proxy => exact hget
  | _ => simp [hv, requireMapping] at hmessage

end Polaris
