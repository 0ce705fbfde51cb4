import Polaris.Journal.Codec

namespace Polaris
open PyJson PyVal SortedDict

def stored (v : PyVal) : PyVal := deepFreeze v.normal

def storedEntries (es : List (String × PyVal)) : List (String × PyVal) :=
  freezeEntries (sortKeys (normalEntries es))

theorem canonicalJson_eq_ok {v : PyVal} {column : JsonColumn} (h : canonicalJson v = .ok column) :
    v.allFinite = true ∧ column.value = stored v ∧
      column.text = String.ofList (text v.normal) := by
  unfold canonicalJson at h
  split at h
  · rename_i t ht
    obtain rfl := Except.ok.inj h
    unfold dumps at ht
    split at ht
    · rename_i hfinite
      exact ⟨hfinite, rfl, (Option.some.inj ht).symm⟩
    · simp at ht
  · simp at h

theorem canonicalJson_of_allFinite {v : PyVal} (h : v.allFinite = true) :
    ∃ column, canonicalJson v = .ok column := by
  unfold canonicalJson
  split
  · exact ⟨_, rfl⟩
  · rename_i hnone
    simp [dumps, h] at hnone

theorem freezeItems_eq_map (xs : List PyVal) : freezeItems xs = xs.map deepFreeze := by
  induction xs with
  | nil => rfl
  | cons x xs ih => simp [freezeItems, ih]

theorem normalItems_eq_map (xs : List PyVal) : normalItems xs = xs.map normal := by
  induction xs with
  | nil => rfl
  | cons x xs ih => simp [normalItems, ih]

theorem normalEntries_eq_map (es : List (String × PyVal)) :
    normalEntries es = es.map fun e => (e.1, e.2.normal) := by
  induction es with
  | nil => rfl
  | cons e es ih => obtain ⟨k, x⟩ := e; simp [normalEntries, ih]

@[simp] theorem stored_null : stored .null = .null := rfl

@[simp] theorem stored_bool (b : Bool) : stored (.bool b) = .bool b := rfl

@[simp] theorem stored_int (n : ℤ) : stored (.int n) = .int n := rfl

@[simp] theorem stored_float (f : PyFloat) : stored (.float f) = .float f := rfl

@[simp] theorem stored_str (s : String) : stored (.str s) = .str s := rfl

@[simp] theorem stored_seq (kind : SeqKind) (xs : List PyVal) :
    stored (.seq kind xs) = .seq .tuple (xs.map stored) := by
  simp [stored, normal, deepFreeze, freezeItems_eq_map, normalItems_eq_map, Function.comp_def]

@[simp] theorem stored_map (kind : MapKind) (es : List (String × PyVal)) :
    stored (.map kind es) = .map .proxy (storedEntries es) := rfl

theorem lookup_freezeEntries (k : String) (es : List (String × PyVal)) :
    lookup k (freezeEntries es) = (lookup k es).map deepFreeze := by
  induction es with
  | nil => rfl
  | cons e es ih =>
      obtain ⟨l, x⟩ := e
      by_cases h : k = l <;> simp [freezeEntries, lookup, h, ih]

theorem lookup_map_value {α β : Type} (f : α → β) (k : String) (es : List (String × α)) :
    lookup k (es.map fun e => (e.1, f e.2)) = (lookup k es).map f := by
  induction es with
  | nil => rfl
  | cons e es ih =>
      obtain ⟨l, x⟩ := e
      by_cases h : k = l <;> simp [lookup, h, ih]

theorem lookup_storedEntries (k : String) (es : List (String × PyVal)) :
    lookup k (storedEntries es) = (lastOf k es).map stored := by
  rw [storedEntries, lookup_freezeEntries, lookup_sortKeys, normalEntries_eq_map, lastOf,
    ← List.map_reverse, lookup_map_value, Option.map_map]
  rfl

theorem map_fst_freezeEntries (es : List (String × PyVal)) :
    (freezeEntries es).map Prod.fst = es.map Prod.fst := by
  induction es with
  | nil => rfl
  | cons e es ih => obtain ⟨k, v⟩ := e; simp [freezeEntries, ih]

theorem key_of_mem_storedEntries {es : List (String × PyVal)} {e : String × PyVal}
    (h : e ∈ storedEntries es) : e.1 ∈ es.map Prod.fst := by
  have hmem := List.mem_map_of_mem (f := Prod.fst) h
  rw [storedEntries, map_fst_freezeEntries] at hmem
  obtain ⟨f, hf, hkey⟩ := List.mem_map.1 hmem
  have hnormal := List.mem_map_of_mem (f := Prod.fst) (mem_sortKeys hf)
  rw [normalEntries_eq_map, List.map_map] at hnormal
  simpa [hkey, Function.comp_def] using hnormal

mutual
theorem normal_deepFreeze : ∀ v : PyVal, (deepFreeze v).normal = v.normal
  | .null | .bool _ | .int _ | .float _ | .str _ => rfl
  | .seq .list xs => by simp [deepFreeze, normal, normalItems_freezeItems xs]
  | .seq .tuple _ => rfl
  | .map .dict es => by simp [deepFreeze, normal, normalEntries_freezeEntries es]
  | .map .proxy _ => rfl
theorem normalItems_freezeItems : ∀ xs : List PyVal, normalItems (freezeItems xs) = normalItems xs
  | [] => rfl
  | x :: xs => by
      simp [freezeItems, normalItems, normal_deepFreeze x, normalItems_freezeItems xs]
theorem normalEntries_freezeEntries : ∀ es : List (String × PyVal),
    normalEntries (freezeEntries es) = normalEntries es
  | [] => rfl
  | (_, x) :: es => by
      simp [freezeEntries, normalEntries, normal_deepFreeze x, normalEntries_freezeEntries es]
end

@[simp] theorem stored_stored (v : PyVal) : stored (stored v) = stored v := by
  have hnormal := normal_of_isNormal _ (normal_isNormal v)
  rw [stored, stored, normal_deepFreeze, hnormal]

end Polaris
