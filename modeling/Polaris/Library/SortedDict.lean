import Mathlib.Data.List.Basic
import Mathlib.Order.Defs.LinearOrder
import Mathlib.Order.Lattice
import Mathlib.Tactic.Common

namespace SortedDict
variable {κ β γ : Type} [LinearOrder κ]

def setKey (k : κ) (v : β) : List (κ × β) → List (κ × β)
  | [] => [(k, v)]
  | (l, w) :: es => if k = l then (k, v) :: es else (l, w) :: setKey k v es

def insertKey (k : κ) (v : β) : List (κ × β) → List (κ × β)
  | [] => [(k, v)]
  | (l, w) :: es =>
      if k < l then (k, v) :: (l, w) :: es
      else if k = l then (k, v) :: es
      else (l, w) :: insertKey k v es

def ofPairs (es : List (κ × β)) : List (κ × β) :=
  es.foldl (fun acc e => setKey e.1 e.2 acc) []

def sortKeys (es : List (κ × β)) : List (κ × β) :=
  es.foldl (fun acc e => insertKey e.1 e.2 acc) []

def lookup (k : κ) : List (κ × β) → Option β
  | [] => none
  | (l, w) :: es => if k = l then some w else lookup k es

def Sorted (es : List (κ × β)) : Prop := es.Pairwise (fun a b => a.1 < b.1)

theorem mem_insertKey {k : κ} {v : β} {es : List (κ × β)} {e : κ × β}
    (h : e ∈ insertKey k v es) : e = (k, v) ∨ e ∈ es := by
  induction es with
  | nil => simpa [insertKey] using h
  | cons f es ih =>
      obtain ⟨l, w⟩ := f
      simp only [insertKey] at h
      split at h
      · simpa using h
      · split at h
        · rcases List.mem_cons.1 h with h | h
          · exact .inl h
          · exact .inr (List.mem_cons_of_mem _ h)
        · rcases List.mem_cons.1 h with h | h
          · exact .inr (h ▸ List.mem_cons_self ..)
          · exact (ih h).imp id (List.mem_cons_of_mem _)

theorem mem_setKey {k : κ} {v : β} {es : List (κ × β)} {e : κ × β}
    (h : e ∈ setKey k v es) : e = (k, v) ∨ e ∈ es := by
  induction es with
  | nil => simpa [setKey] using h
  | cons f es ih =>
      obtain ⟨l, w⟩ := f
      simp only [setKey] at h
      split at h
      · rcases List.mem_cons.1 h with h | h
        · exact .inl h
        · exact .inr (List.mem_cons_of_mem _ h)
      · rcases List.mem_cons.1 h with h | h
        · exact .inr (h ▸ List.mem_cons_self ..)
        · exact (ih h).imp id (List.mem_cons_of_mem _)

theorem mem_ofPairs {es : List (κ × β)} {e : κ × β}
    (h : e ∈ ofPairs es) : e ∈ es := by
  suffices hs : ∀ acc : List (κ × β), e ∈ es.foldl (fun acc e => setKey e.1 e.2 acc) acc →
      e ∈ acc ∨ e ∈ es by simpa using hs [] h
  clear h
  induction es with
  | nil => exact fun acc h => .inl h
  | cons f es ih =>
      intro acc h
      rcases ih _ h with h | h
      · rcases mem_setKey h with rfl | h
        · exact .inr (by simp)
        · exact .inl h
      · exact .inr (List.mem_cons_of_mem _ h)

theorem map_fst_setKey (k : κ) (v : β) (es : List (κ × β)) :
    (setKey k v es).map Prod.fst =
      if k ∈ es.map Prod.fst then es.map Prod.fst else es.map Prod.fst ++ [k] := by
  induction es with
  | nil => simp [setKey]
  | cons e es ih =>
      obtain ⟨l, w⟩ := e
      by_cases h : k = l
      · simp [setKey, h]
      · rw [setKey, if_neg h, List.map_cons, ih]
        by_cases hk : k ∈ es.map Prod.fst <;> simp only [hk, if_true, if_false] <;> simp [h, hk]

theorem setKey_nodup (k : κ) (v : β) {es : List (κ × β)} (h : (es.map Prod.fst).Nodup) :
    ((setKey k v es).map Prod.fst).Nodup := by
  rw [map_fst_setKey]
  by_cases hk : k ∈ es.map Prod.fst
  · rwa [if_pos hk]
  · rw [if_neg hk]
    exact List.nodup_append.2 ⟨h, by simp, fun a ha b hb heq => hk (by simp_all)⟩

theorem lookup_setKey (k l : κ) (v : β) (es : List (κ × β)) :
    lookup l (setKey k v es) = if l = k then some v else lookup l es := by
  induction es with
  | nil => simp [setKey, lookup]
  | cons e es ih =>
      obtain ⟨m, w⟩ := e
      by_cases hk : k = m
      · subst hk
        by_cases hl : l = k <;> simp [setKey, lookup, hl]
      · by_cases hl : l = m
        · have hlk : l ≠ k := fun heq => hk (heq.symm.trans hl)
          simp [setKey, lookup, hk, hl, Ne.symm hk]
        · simp [setKey, lookup, hk, hl, ih]

theorem ofPairs_nodup (es : List (κ × β)) : ((ofPairs es).map Prod.fst).Nodup := by
  suffices hs : ∀ acc : List (κ × β), (acc.map Prod.fst).Nodup →
      ((es.foldl (fun acc e => setKey e.1 e.2 acc) acc).map Prod.fst).Nodup by
    exact hs [] (by simp)
  induction es with
  | nil => exact fun acc h => h
  | cons e es ih =>
      intro acc h
      refine ih _ ?_
      rw [map_fst_setKey]
      split
      · exact h
      · rename_i hnot
        exact List.nodup_append.2 ⟨h, by simp, fun a ha b hb heq => by
          obtain rfl : b = e.1 := by simpa using hb
          exact hnot (heq ▸ ha)⟩

theorem insertKey_sorted (k : κ) (v : β) {es : List (κ × β)} (h : Sorted es) :
    Sorted (insertKey k v es) := by
  induction es with
  | nil => simp [insertKey, Sorted]
  | cons f es ih =>
      obtain ⟨l, w⟩ := f
      obtain ⟨hl, hes⟩ := List.pairwise_cons.1 h
      simp only [insertKey]
      split
      · rename_i hlt
        refine List.pairwise_cons.2 ⟨?_, h⟩
        intro e he
        rcases List.mem_cons.1 he with rfl | he
        · exact hlt
        · exact lt_trans hlt (hl e he)
      · split
        · rename_i heq
          exact List.pairwise_cons.2 ⟨heq ▸ hl, hes⟩
        · rename_i hlt hne
          refine List.pairwise_cons.2 ⟨?_, ih hes⟩
          intro e he
          rcases mem_insertKey he with rfl | he
          · exact lt_of_le_of_ne (not_lt.1 hlt) (Ne.symm hne)
          · exact hl e he

theorem sortKeys_sorted (es : List (κ × β)) : Sorted (sortKeys es) := by
  suffices h : ∀ acc : List (κ × β), Sorted acc →
      Sorted (es.foldl (fun acc e => insertKey e.1 e.2 acc) acc) from h [] (by simp [Sorted])
  induction es with
  | nil => exact fun acc h => h
  | cons e es ih => exact fun acc h => ih _ (insertKey_sorted e.1 e.2 h)

theorem insertKey_append_lt (k : κ) (v : β) {es : List (κ × β)}
    (h : ∀ e ∈ es, e.1 < k) : insertKey k v es = es ++ [(k, v)] := by
  induction es with
  | nil => rfl
  | cons f es ih =>
      obtain ⟨l, w⟩ := f
      have hl : l < k := h (l, w) (by simp)
      simp only [insertKey, if_neg (not_lt.2 hl.le), if_neg hl.ne', List.cons_append]
      rw [ih (fun e he => h e (List.mem_cons_of_mem _ he))]

theorem setKey_append_ne (k : κ) (v : β) {es : List (κ × β)}
    (h : ∀ e ∈ es, e.1 ≠ k) : setKey k v es = es ++ [(k, v)] := by
  induction es with
  | nil => rfl
  | cons f es ih =>
      obtain ⟨l, w⟩ := f
      have hl : l ≠ k := h (l, w) (by simp)
      simp only [setKey, if_neg hl.symm, List.cons_append]
      rw [ih (fun e he => h e (List.mem_cons_of_mem _ he))]

theorem foldl_insertKey_sorted {es acc : List (κ × β)} (h : Sorted (acc ++ es)) :
    es.foldl (fun acc e => insertKey e.1 e.2 acc) acc = acc ++ es := by
  induction es generalizing acc with
  | nil => simp
  | cons e es ih =>
      have hacc : ∀ f ∈ acc, f.1 < e.1 := fun f hf =>
        (List.pairwise_append.1 h).2.2 f hf e (by simp)
      rw [List.foldl_cons, insertKey_append_lt _ _ hacc, ih (by simpa using h)]
      simp

theorem sortKeys_of_sorted {es : List (κ × β)} (h : Sorted es) : sortKeys es = es := by
  have hs : Sorted ([] ++ es) := by simpa using h
  simpa [sortKeys] using foldl_insertKey_sorted hs

theorem ofPairs_of_nodup {es : List (κ × β)} (h : (es.map Prod.fst).Nodup) : ofPairs es = es := by
  suffices hs : ∀ acc : List (κ × β), ((acc ++ es).map Prod.fst).Nodup →
      es.foldl (fun acc e => setKey e.1 e.2 acc) acc = acc ++ es from hs [] (by simpa using h)
  clear h
  induction es with
  | nil => simp
  | cons e es ih =>
      intro acc h
      have hne : ∀ f ∈ acc, f.1 ≠ e.1 := by
        intro f hf
        rw [List.map_append, List.map_cons] at h
        exact (List.nodup_append.1 h).2.2 _ (List.mem_map_of_mem hf) _ (List.mem_cons_self ..)
      rw [List.foldl_cons, setKey_append_ne _ _ hne, ih (acc ++ [(e.1, e.2)]) (by simpa using h)]
      simp

theorem Sorted.keys_nodup {es : List (κ × β)} (h : Sorted es) : (es.map Prod.fst).Nodup :=
  List.pairwise_map.2 (h.imp ne_of_lt)

theorem ofPairs_of_sorted {es : List (κ × β)} (h : Sorted es) : ofPairs es = es :=
  ofPairs_of_nodup h.keys_nodup

theorem lookup_insertKey (k l : κ) (v : β) (es : List (κ × β)) (h : Sorted es) :
    lookup k (insertKey l v es) = if k = l then some v else lookup k es := by
  induction es with
  | nil => simp [insertKey, lookup]
  | cons f es ih =>
      obtain ⟨m, w⟩ := f
      obtain ⟨hm, hes⟩ := List.pairwise_cons.1 h
      simp only [insertKey]
      split
      · simp [lookup]
      · split
        · rename_i heq
          subst heq
          by_cases hk : k = l <;> simp [lookup, hk]
        · rename_i hlt hne
          by_cases hk : k = m
          · subst hk; simp [lookup, Ne.symm hne]
          · simp [lookup, hk, ih hes]

theorem mem_of_lookup {k : κ} {v : β} {es : List (κ × β)} (h : lookup k es = some v) :
    (k, v) ∈ es := by
  induction es with
  | nil => simp [lookup] at h
  | cons e es ih =>
      obtain ⟨l, w⟩ := e
      simp only [lookup] at h
      split at h
      · rename_i hk
        obtain rfl := Option.some.inj h
        exact hk ▸ List.mem_cons_self ..
      · exact List.mem_cons_of_mem _ (ih h)

theorem lookup_append (k : κ) (es fs : List (κ × β)) :
    lookup k (es ++ fs) = (lookup k es).or (lookup k fs) := by
  induction es with
  | nil => rfl
  | cons e es ih =>
      obtain ⟨l, w⟩ := e
      by_cases h : k = l <;> simp [lookup, h, ih]

def lastOf (k : κ) (es : List (κ × β)) : Option β := lookup k es.reverse

theorem lookup_foldl_insertKey (k : κ) (es acc : List (κ × β)) (h : Sorted acc) :
    lookup k (es.foldl (fun acc e => insertKey e.1 e.2 acc) acc) =
      (lastOf k es).or (lookup k acc) := by
  induction es generalizing acc with
  | nil => simp [lastOf, lookup]
  | cons e es ih =>
      obtain ⟨l, w⟩ := e
      rw [List.foldl_cons, ih _ (insertKey_sorted l w h), lookup_insertKey k l w acc h]
      simp only [lastOf, List.reverse_cons, lookup_append]
      cases lookup k es.reverse with
      | none => by_cases hk : k = l <;> simp [lookup, hk]
      | some u => rfl

theorem lookup_sortKeys (k : κ) (es : List (κ × β)) :
    lookup k (sortKeys es) = lastOf k es := by
  rw [sortKeys, lookup_foldl_insertKey k es [] (by simp [Sorted])]
  simp [lookup]

theorem lookup_eq_none {k : κ} {es : List (κ × β)} (h : k ∉ es.map Prod.fst) :
    lookup k es = none := by
  induction es with
  | nil => rfl
  | cons e es ih =>
      obtain ⟨l, w⟩ := e
      simp only [List.map_cons, List.mem_cons, not_or] at h
      simp [lookup, h.1, ih h.2]

theorem lookup_isSome {k : κ} {es : List (κ × β)} :
    (lookup k es).isSome = true ↔ k ∈ es.map Prod.fst := by
  induction es with
  | nil => simp [lookup]
  | cons e es ih =>
      obtain ⟨l, w⟩ := e
      rw [lookup, List.map_cons, List.mem_cons]
      split
      · rename_i heq
        simp [heq]
      · rename_i hne
        simp [ih, hne]

theorem lookup_of_mem {es : List (κ × β)} {e : κ × β} (h : (es.map Prod.fst).Nodup)
    (he : e ∈ es) : lookup e.1 es = some e.2 := by
  induction es with
  | nil => simp at he
  | cons f es ih =>
      obtain ⟨l, w⟩ := f
      rw [List.map_cons, List.nodup_cons] at h
      rw [lookup]
      rcases List.mem_cons.1 he with rfl | he
      · exact if_pos rfl
      · have hmem : e.1 ∈ es.map Prod.fst := List.mem_map_of_mem he
        have hne : e.1 ≠ l := fun heq => h.1 (heq ▸ hmem)
        rw [if_neg hne, ih h.2 he]

theorem lastOf_of_nodup (k : κ) {es : List (κ × β)} (h : (es.map Prod.fst).Nodup) :
    lastOf k es = lookup k es := by
  induction es with
  | nil => rfl
  | cons e es ih =>
      obtain ⟨l, w⟩ := e
      obtain ⟨hnot, hes⟩ := List.nodup_cons.1 h
      have hrec : lookup k es.reverse = lookup k es := ih hes
      rw [lastOf, List.reverse_cons, lookup_append, hrec]
      by_cases hk : k = l
      · subst hk
        simp [lookup, lookup_eq_none hnot]
      · simp [lookup, hk]

theorem insertKey_perm {k : κ} {v : β} {es : List (κ × β)} (h : k ∉ es.map Prod.fst) :
    (insertKey k v es).Perm ((k, v) :: es) := by
  induction es with
  | nil => exact .refl _
  | cons f es ih =>
      obtain ⟨l, w⟩ := f
      simp only [List.map_cons, List.mem_cons, not_or] at h
      rw [insertKey, if_neg h.1]
      split
      · exact .refl _
      · exact ((ih h.2).cons (l, w)).trans (.swap (k, v) (l, w) es)

theorem sortKeys_perm {es : List (κ × β)} (h : (es.map Prod.fst).Nodup) :
    (sortKeys es).Perm es := by
  suffices hs : ∀ acc : List (κ × β), ((acc ++ es).map Prod.fst).Nodup →
      (es.foldl (fun acc e => insertKey e.1 e.2 acc) acc).Perm (acc ++ es) from
    hs [] (by simpa using h)
  clear h
  induction es with
  | nil => exact fun acc _ => by simp
  | cons e es ih =>
      intro acc h
      have hfresh : e.1 ∉ acc.map Prod.fst := by
        intro hmem
        rw [List.map_append, List.nodup_append] at h
        exact h.2.2 e.1 hmem e.1 (by simp) rfl
      have hinsert : (insertKey e.1 e.2 acc ++ es).Perm (acc ++ e :: es) :=
        ((insertKey_perm hfresh).append_right es).trans List.perm_middle.symm
      exact (ih _ ((hinsert.map Prod.fst).nodup_iff.2 h)).trans hinsert

end SortedDict
