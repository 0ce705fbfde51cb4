import Mathlib.Data.List.Sort
import Polaris.Library.PyJson

namespace SortedDict
variable {κ β : Type} [LinearOrder κ] {es fs : List (κ × β)}

theorem Sorted.eq_of_perm (hes : Sorted es) (hfs : Sorted fs) (h : es.Perm fs) : es = fs :=
  h.eq_of_pairwise (fun _ _ _ _ hlt hgt => absurd hgt (lt_asymm hlt)) hes hfs

theorem sortKeys_eq_iff (hes : (es.map Prod.fst).Nodup) (hfs : (fs.map Prod.fst).Nodup) :
    sortKeys es = sortKeys fs ↔ es.Perm fs := by
  constructor
  · intro h
    exact (sortKeys_perm hes).symm.trans (h ▸ sortKeys_perm hfs)
  · intro h
    refine (sortKeys_sorted es).eq_of_perm (sortKeys_sorted fs) ?_
    exact (sortKeys_perm hes).trans (h.trans (sortKeys_perm hfs).symm)

theorem perm_iff (hes : (es.map Prod.fst).Nodup) (hfs : (fs.map Prod.fst).Nodup) :
    es.Perm fs ↔ es.length = fs.length ∧ ∀ e ∈ es, lookup e.1 fs = some e.2 := by
  constructor
  · intro h
    exact ⟨h.length_eq, fun e he => lookup_of_mem hfs (h.subset he)⟩
  · rintro ⟨hlength, hall⟩
    have hsubset : es ⊆ fs := fun e he => mem_of_lookup (hall e he)
    exact (List.subperm_of_subset hes.of_map hsubset).perm_of_length_le hlength.ge

end SortedDict

namespace PyJson
open SortedDict

namespace PyVal

mutual
/-- No mapping has a key twice. -/
def DistinctKeys : PyVal → Prop
  | .seq _ xs => ItemsDistinct xs
  | .map _ es => (es.map Prod.fst).Nodup ∧ EntriesDistinct es
  | _ => True
def ItemsDistinct : List PyVal → Prop
  | [] => True
  | x :: xs => DistinctKeys x ∧ ItemsDistinct xs
def EntriesDistinct : List (String × PyVal) → Prop
  | [] => True
  | (_, x) :: es => DistinctKeys x ∧ EntriesDistinct es
end

mutual
/-- The same value up to the order of keys and the types of the containers. -/
def SameJson : PyVal → PyVal → Prop
  | .seq _ xs, w => ∃ kind ys, w = .seq kind ys ∧ SameItems xs ys
  | .map _ es, w => ∃ kind fs, w = .map kind fs ∧ es.length = fs.length ∧ SameEntries es fs
  | v, w => w = v
def SameItems : List PyVal → List PyVal → Prop
  | [], ys => ys = []
  | x :: xs, ys => ∃ y rest, ys = y :: rest ∧ SameJson x y ∧ SameItems xs rest
def SameEntries : List (String × PyVal) → List (String × PyVal) → Prop
  | [], _ => True
  | (k, x) :: es, fs => (∃ y, lookup k fs = some y ∧ SameJson x y) ∧ SameEntries es fs
end

theorem entriesDistinct_iff {es : List (String × PyVal)} :
    EntriesDistinct es ↔ ∀ e ∈ es, DistinctKeys e.2 := by
  induction es with
  | nil => simp [EntriesDistinct]
  | cons e es ih => obtain ⟨k, x⟩ := e; simp [EntriesDistinct, ih]

theorem map_fst_normalEntries (es : List (String × PyVal)) :
    (normalEntries es).map Prod.fst = es.map Prod.fst := by
  induction es with
  | nil => rfl
  | cons e es ih => obtain ⟨k, x⟩ := e; simp [normalEntries, ih]

theorem length_normalEntries (es : List (String × PyVal)) :
    (normalEntries es).length = es.length := by
  simpa using congrArg List.length (map_fst_normalEntries es)

theorem lookup_normalEntries (k : String) (es : List (String × PyVal)) :
    lookup k (normalEntries es) = (lookup k es).map normal := by
  induction es with
  | nil => rfl
  | cons e es ih =>
      obtain ⟨l, x⟩ := e
      by_cases h : k = l <;> simp [normalEntries, lookup, h, ih]

theorem forall_mem_normalEntries {es : List (String × PyVal)} {p : String × PyVal → Prop} :
    (∀ e ∈ normalEntries es, p e) ↔ ∀ e ∈ es, p (e.1, e.2.normal) := by
  induction es with
  | nil => simp [normalEntries]
  | cons e es ih =>
      obtain ⟨k, x⟩ := e
      rw [normalEntries, List.forall_mem_cons, List.forall_mem_cons, ih]

theorem sortKeys_normalEntries_eq {es fs : List (String × PyVal)} (hes : (es.map Prod.fst).Nodup)
    (hfs : (fs.map Prod.fst).Nodup) :
    sortKeys (normalEntries es) = sortKeys (normalEntries fs) ↔
      es.length = fs.length ∧ ∀ e ∈ es, (lookup e.1 fs).map normal = some e.2.normal := by
  have hes' : ((normalEntries es).map Prod.fst).Nodup := by rwa [map_fst_normalEntries]
  have hfs' : ((normalEntries fs).map Prod.fst).Nodup := by rwa [map_fst_normalEntries]
  rw [sortKeys_eq_iff hes' hfs', perm_iff hes' hfs', length_normalEntries, length_normalEntries,
    forall_mem_normalEntries]
  simp only [lookup_normalEntries]

theorem normal_eq_seq {w : PyVal} {xs : List PyVal} (h : w.normal = .seq .list xs) :
    ∃ kind ys, w = .seq kind ys ∧ normalItems ys = xs := by
  cases w with
  | seq kind ys => exact ⟨kind, ys, rfl, by simpa [normal] using h⟩
  | _ => simp [normal] at h

theorem normal_eq_map {w : PyVal} {es : List (String × PyVal)} (h : w.normal = .map .dict es) :
    ∃ kind fs, w = .map kind fs ∧ sortKeys (normalEntries fs) = es := by
  cases w with
  | map kind fs => exact ⟨kind, fs, rfl, by simpa [normal] using h⟩
  | _ => simp [normal] at h

mutual
theorem sameJson_iff : ∀ v w : PyVal, v.DistinctKeys → w.DistinctKeys →
    (SameJson v w ↔ v.normal = w.normal)
  | .null, w, _, _ | .bool _, w, _, _ | .int _, w, _, _ | .float _, w, _, _ | .str _, w, _, _ => by
      cases w <;> simp [SameJson, normal, eq_comm]
  | .seq _ xs, w, hv, hw => by
      constructor
      · rintro ⟨kind, ys, rfl, hsame⟩
        rw [normal, normal, (sameItems_iff xs ys hv hw).1 hsame]
      · intro h
        rw [normal] at h
        obtain ⟨kind, ys, rfl, hitems⟩ := normal_eq_seq h.symm
        exact ⟨kind, ys, rfl, (sameItems_iff xs ys hv hw).2 hitems.symm⟩
  | .map _ es, w, hv, hw => by
      constructor
      · rintro ⟨kind, fs, rfl, hlength, hsame⟩
        have hall := (sameEntries_iff es fs hv.2 hw.2).1 hsame
        rw [normal, normal, (sortKeys_normalEntries_eq hv.1 hw.1).2 ⟨hlength, hall⟩]
      · intro h
        rw [normal] at h
        obtain ⟨kind, fs, rfl, hentries⟩ := normal_eq_map h.symm
        obtain ⟨hlength, hall⟩ := (sortKeys_normalEntries_eq hv.1 hw.1).1 hentries.symm
        exact ⟨kind, fs, rfl, hlength, (sameEntries_iff es fs hv.2 hw.2).2 hall⟩
theorem sameItems_iff : ∀ xs ys : List PyVal, ItemsDistinct xs → ItemsDistinct ys →
    (SameItems xs ys ↔ normalItems xs = normalItems ys)
  | [], ys, _, _ => by
      cases ys <;> simp [SameItems, normalItems]
  | x :: xs, [], _, _ => by
      simp [SameItems, normalItems]
  | x :: xs, y :: ys, hv, hw => by
      simp only [SameItems, normalItems, List.cons.injEq]
      rw [← sameJson_iff x y hv.1 hw.1, ← sameItems_iff xs ys hv.2 hw.2]
      constructor
      · rintro ⟨_, _, ⟨rfl, rfl⟩, h⟩
        exact h
      · intro h
        exact ⟨y, ys, ⟨rfl, rfl⟩, h⟩
theorem sameEntries_iff : ∀ es fs : List (String × PyVal), EntriesDistinct es → EntriesDistinct fs →
    (SameEntries es fs ↔ ∀ e ∈ es, (lookup e.1 fs).map normal = some e.2.normal)
  | [], fs, _, _ => by simp [SameEntries]
  | (k, x) :: es, fs, hv, hw => by
      rw [SameEntries, List.forall_mem_cons, sameEntries_iff es fs hv.2 hw]
      refine and_congr_left fun _ => ?_
      cases hlookup : lookup k fs with
      | none => simp
      | some y =>
          have hy : DistinctKeys y := entriesDistinct_iff.1 hw (k, y) (mem_of_lookup hlookup)
          simp only [Option.some.injEq, Option.map_some, exists_eq_left']
          rw [sameJson_iff x y hv.1 hy]
          exact eq_comm
end

end PyVal

end PyJson
