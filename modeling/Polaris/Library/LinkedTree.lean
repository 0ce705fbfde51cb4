import Mathlib.Data.List.Dedup
import Mathlib.Data.List.Induction
import Mathlib.Tactic.Common

/-! Trees with symbolic links, and the two ways in which a path is followed through them. -/

namespace LinkedTree

variable {ν β : Type}

inductive Step (ν : Type) where
  | here
  | up
  | down (name : ν)
deriving DecidableEq

structure LinkText (ν : Type) where
  absolute : Bool
  steps : List (Step ν)
deriving DecidableEq

inductive Node (ν β : Type) where
  | file (content : β)
  | directory
  | symlink (target : LinkText ν)
  | special
deriving DecidableEq

def Node.isLink : Node ν β → Bool
  | .symlink _ => true
  | _ => false

/-- The nodes by their paths from the root; of two for one path the first counts. -/
structure Tree (ν β : Type) where
  entries : List (List ν × Node ν β)

def LinkText.start (target : LinkText ν) (base : List ν) : List ν :=
  if target.absolute then [] else base

def down (p : List ν) : List (Step ν) := p.map .down

section Operations
variable [DecidableEq ν]

namespace Tree

def node (t : Tree ν β) (p : List ν) : Option (Node ν β) :=
  if p = [] then some .directory else t.entries.lookup p

def isDirectory (t : Tree ν β) (p : List ν) : Bool :=
  match t.node p with
  | some .directory => true
  | _ => false

def set (t : Tree ν β) (p : List ν) (n : Node ν β) : Tree ν β := ⟨(p, n) :: t.entries⟩

def erase (t : Tree ν β) (p : List ν) : Tree ν β := ⟨t.entries.filter fun e => e.1 ≠ p⟩

def children (t : Tree ν β) (p : List ν) : List ν :=
  (t.entries.filterMap fun e => if e.1.dropLast = p then e.1.getLast? else none).dedup

structure WellFormed (t : Tree ν β) : Prop where
  closed : ∀ p s, t.node (p ++ [s]) ≠ none → t.node p = some .directory

end Tree

/-- The kernel's walk up to the first link, behind which `onward` goes on. What is walked through
has to be a directory. -/
def walkWith (t : Tree ν β) (onward : List ν → List (Step ν) → Option (List ν × ℕ)) (limit : ℕ)
    (base : List ν) : List (Step ν) → Option (List ν × ℕ)
  | [] => some (base, limit)
  | step :: rest =>
      if t.isDirectory base then
        match step with
        | .here => walkWith t onward limit base rest
        | .up => walkWith t onward limit base.dropLast rest
        | .down s =>
            match t.node (base ++ [s]) with
            | none => none
            | some (.symlink target) => onward (target.start base) (target.steps ++ rest)
            | some _ => walkWith t onward limit (base ++ [s]) rest
      else none

/-- The path to which the kernel follows the steps, and how many more links it would follow. -/
def walk (t : Tree ν β) : ℕ → List ν → List (Step ν) → Option (List ν × ℕ)
  | 0 => walkWith t (fun _ _ => none) 0
  | limit + 1 => walkWith t (walk t limit) (limit + 1)

def realPathWith (t : Tree ν β) (onward : List ν → List (Step ν) → Option (List ν))
    (base : List ν) : List (Step ν) → Option (List ν)
  | [] => some base
  | .here :: rest => realPathWith t onward base rest
  | .up :: rest => realPathWith t onward base.dropLast rest
  | .down s :: rest =>
      match t.node (base ++ [s]) with
      | none => none
      | some (.symlink target) =>
          match onward (target.start base) target.steps with
          | none => none
          | some q => realPathWith t onward q rest
      | some _ => realPathWith t onward (base ++ [s]) rest

/-- Python's `realpath`, which resolves one link after the other. Links that are deeper in one
another than there are links come back to themselves. -/
def realPath (t : Tree ν β) : ℕ → List ν → List (Step ν) → Option (List ν)
  | 0 => realPathWith t fun _ _ => none
  | depth + 1 => realPathWith t (realPath t depth)

end Operations

section Nodes
variable [DecidableEq ν] {t : Tree ν β} {p q : List ν} {n : Node ν β}

@[simp] theorem node_nil : t.node [] = some .directory := rfl

theorem node_set (hp : p ≠ []) : (t.set p n).node q = if q = p then some n else t.node q := by
  unfold Tree.node Tree.set
  by_cases hq : q = []
  · subst hq
    rw [if_pos rfl, if_pos rfl, if_neg (Ne.symm hp)]
  · rw [if_neg hq, if_neg hq, List.lookup_cons]
    by_cases hsame : q = p
    · subst hsame
      simp
    · rw [if_neg hsame, beq_false_of_ne hsame]

theorem node_erase (hp : p ≠ []) : (t.erase p).node q = if q = p then none else t.node q := by
  unfold Tree.node Tree.erase
  by_cases hq : q = []
  · subst hq
    rw [if_pos rfl, if_pos rfl, if_neg (Ne.symm hp)]
  · rw [if_neg hq, if_neg hq]
    generalize t.entries = es
    induction es with
    | nil => split <;> rfl
    | cons e es ih =>
        obtain ⟨r, m⟩ := e
        by_cases hr : r = p
        · subst hr
          rw [List.filter_cons_of_neg (by simp), ih, List.lookup_cons]
          by_cases hsame : q = r
          · rw [if_pos hsame, if_pos hsame]
          · rw [if_neg hsame, if_neg hsame, beq_false_of_ne hsame]
        · rw [List.filter_cons_of_pos (by simpa using hr), List.lookup_cons, List.lookup_cons, ih]
          by_cases hqr : q = r
          · subst hqr
            simp [hr]
          · rw [beq_false_of_ne hqr]

theorem node_set_of_ne (hq : q ≠ p) : (t.set p n).node q = t.node q := by
  by_cases hp : p = []
  · subst hp
    unfold Tree.node Tree.set
    rw [if_neg hq, if_neg hq, List.lookup_cons, beq_false_of_ne hq]
  · rw [node_set hp, if_neg hq]

theorem isDirectory_iff : t.isDirectory p = true ↔ t.node p = some .directory := by
  unfold Tree.isDirectory
  split
  · rename_i hnode
    simp [hnode]
  · rename_i hnode
    simpa using hnode

theorem Tree.WellFormed.above (h : t.WellFormed) {r : List ν} (hr : r ≠ [])
    (hn : t.node (p ++ r) ≠ none) : t.node p = some .directory := by
  induction r using List.reverseRecOn with
  | nil => exact absurd rfl hr
  | append_singleton r s ih =>
      rw [← List.append_assoc] at hn
      have hparent := h.closed _ _ hn
      by_cases hr' : r = []
      · subst hr'
        rwa [List.append_nil] at hparent
      · exact ih hr' (by rw [hparent]; exact Option.some_ne_none _)

theorem Tree.WellFormed.below (h : t.WellFormed) {r : List ν} (hr : r ≠ [])
    (hp : t.node p ≠ some .directory) : t.node (p ++ r) = none := by
  by_contra hn
  exact hp (h.above hr hn)

end Nodes

/-- The path at which the steps end when every link on the way is followed. -/
inductive Real [DecidableEq ν] (t : Tree ν β) : List ν → List (Step ν) → List ν → Prop
  | nil {base} : Real t base [] base
  | here {base rest p} (tail : Real t base rest p) : Real t base (.here :: rest) p
  | up {base rest p} (tail : Real t base.dropLast rest p) : Real t base (.up :: rest) p
  | down {base s n rest p} (found : t.node (base ++ [s]) = some n) (plain : n.isLink = false)
      (tail : Real t (base ++ [s]) rest p) : Real t base (.down s :: rest) p
  | link {base s target q rest p} (found : t.node (base ++ [s]) = some (.symlink target))
      (head : Real t (target.start base) target.steps q) (tail : Real t q rest p) :
      Real t base (.down s :: rest) p

namespace Real
variable [DecidableEq ν] {t : Tree ν β} {base p q : List ν} {xs ys : List (Step ν)}

theorem append (h : Real t base xs q) (h' : Real t q ys p) : Real t base (xs ++ ys) p := by
  induction h with
  | nil => exact h'
  | here _ ih => exact .here (ih h')
  | up _ ih => exact .up (ih h')
  | down found plain _ ih => exact .down found plain (ih h')
  | link found head _ _ ih => exact .link found head (ih h')

theorem split (h : Real t base (xs ++ ys) p) : ∃ q, Real t base xs q ∧ Real t q ys p := by
  induction xs generalizing base with
  | nil => exact ⟨base, .nil, h⟩
  | cons x xs ih =>
      cases h with
      | here tail =>
          obtain ⟨q, hq, hp⟩ := ih tail
          exact ⟨q, .here hq, hp⟩
      | up tail =>
          obtain ⟨q, hq, hp⟩ := ih tail
          exact ⟨q, .up hq, hp⟩
      | down found plain tail =>
          obtain ⟨q, hq, hp⟩ := ih tail
          exact ⟨q, .down found plain hq, hp⟩
      | link found head tail =>
          obtain ⟨q, hq, hp⟩ := ih tail
          exact ⟨q, .link found head hq, hp⟩

theorem unique (h : Real t base xs p) (h' : Real t base xs q) : p = q := by
  induction h generalizing q with
  | nil => cases h' with | nil => rfl
  | here _ ih => cases h' with | here tail => exact ih tail
  | up _ ih => cases h' with | up tail => exact ih tail
  | down found plain _ ih =>
      cases h' with
      | down found' plain' tail => exact ih tail
      | link found' head tail =>
          obtain rfl := Option.some.inj (found.symm.trans found')
          cases plain
  | link found _ _ ihhead ihtail =>
      cases h' with
      | down found' plain' tail =>
          obtain rfl := Option.some.inj (found.symm.trans found')
          cases plain'
      | link found' head tail =>
          have htarget := Node.symlink.inj (Option.some.inj (found.symm.trans found'))
          subst htarget
          obtain rfl := ihhead head
          exact ihtail tail

end Real

/-- A path with no link on it. -/
def Physical [DecidableEq ν] (t : Tree ν β) (p : List ν) : Prop :=
  ∃ n, t.node p = some n ∧ n.isLink = false

section Follows
variable [DecidableEq ν] {t t' : Tree ν β} {base p q : List ν} {xs ys : List (Step ν)}
  {limit left depth : ℕ} {s : ν} {n : Node ν β}

theorem walk_nil : walk t limit base [] = some (base, limit) := by
  cases limit <;> rfl

/-- Behind a link the kernel follows one link less. -/
def behind (t : Tree ν β) : ℕ → List ν → List (Step ν) → Option (List ν × ℕ)
  | 0 => fun _ _ => none
  | limit + 1 => walk t limit

theorem walk_eq : walk t limit = walkWith t (behind t limit) limit := by
  cases limit <;> rfl

theorem real_of_walkWith {onward : List ν → List (Step ν) → Option (List ν × ℕ)}
    (honward : ∀ base xs p left, onward base xs = some (p, left) → Real t base xs p)
    (h : walkWith t onward limit base xs = some (p, left)) : Real t base xs p := by
  induction xs generalizing base with
  | nil =>
      obtain ⟨rfl, -⟩ := Prod.mk.inj (Option.some.inj h)
      exact .nil
  | cons x xs ih =>
      rw [walkWith.eq_def] at h
      simp only at h
      split at h
      · cases x with
        | here => exact .here (ih h)
        | up => exact .up (ih h)
        | down s =>
            simp only at h
            split at h
            · cases h
            · rename_i target hfound
              obtain ⟨q, hhead, htail⟩ := (honward _ _ _ _ h).split
              exact .link hfound hhead htail
            · rename_i n hplain hfound
              refine .down hfound ?_ (ih h)
              cases n with
              | symlink target => exact (hplain target rfl).elim
              | _ => rfl
      · cases h

theorem real_of_walk (h : walk t limit base xs = some (p, left)) : Real t base xs p := by
  induction limit generalizing base xs p left with
  | zero => exact real_of_walkWith (fun _ _ _ _ h => absurd h (by simp)) h
  | succ limit ih => exact real_of_walkWith (fun _ _ _ _ h => ih h) h

theorem real_of_realPathWith {onward : List ν → List (Step ν) → Option (List ν)}
    (honward : ∀ base xs p, onward base xs = some p → Real t base xs p)
    (h : realPathWith t onward base xs = some p) : Real t base xs p := by
  induction xs generalizing base with
  | nil =>
      obtain rfl := Option.some.inj h
      exact .nil
  | cons x xs ih =>
      cases x with
      | here => exact .here (ih h)
      | up => exact .up (ih h)
      | down s =>
          rw [realPathWith] at h
          split at h
          · cases h
          · rename_i target hfound
            split at h
            · cases h
            · rename_i q hhead
              exact .link hfound (honward _ _ _ hhead) (ih h)
          · rename_i n hplain hfound
            refine .down hfound ?_ (ih h)
            cases n with
            | symlink target => exact (hplain target rfl).elim
            | _ => rfl

theorem real_of_realPath (h : realPath t depth base xs = some p) : Real t base xs p := by
  induction depth generalizing base xs p with
  | zero => exact real_of_realPathWith (fun _ _ _ h => absurd h (by simp)) h
  | succ depth ih => exact real_of_realPathWith (fun _ _ _ h => ih h) h

theorem walk_cons {x : Step ν} : walk t limit base (x :: xs) =
    if t.isDirectory base then
      match x with
      | .here => walk t limit base xs
      | .up => walk t limit base.dropLast xs
      | .down s =>
          match t.node (base ++ [s]) with
          | none => none
          | some (.symlink target) => behind t limit (target.start base) (target.steps ++ xs)
          | some _ => walk t limit (base ++ [s]) xs
    else none := by
  rw [walk_eq, walkWith.eq_def]

theorem walk_plain (hbase : t.isDirectory base = true) (hn : t.node (base ++ [s]) = some n)
    (hplain : n.isLink = false) :
    walk t limit base (.down s :: xs) = walk t limit (base ++ [s]) xs := by
  rw [walk_cons, if_pos hbase]
  simp only [hn]
  cases n with
  | symlink target => cases hplain
  | _ => rfl

theorem walk_append_of (hbehind : ∀ base xs, behind t limit base (xs ++ ys) =
      (behind t limit base xs).bind fun r => walk t r.2 r.1 ys) :
    walk t limit base (xs ++ ys) =
      (walk t limit base xs).bind fun r => walk t r.2 r.1 ys := by
  induction xs generalizing base with
  | nil => rw [walk_nil]; rfl
  | cons x xs ih =>
      rw [List.cons_append, walk_cons, walk_cons]
      split
      · cases x with
        | here => exact ih
        | up => exact ih
        | down s =>
            simp only
            split
            · rfl
            · rw [← List.append_assoc]
              exact hbehind _ _
            · exact ih
      · rfl

theorem walk_append : walk t limit base (xs ++ ys) =
    (walk t limit base xs).bind fun r => walk t r.2 r.1 ys := by
  induction limit generalizing base xs with
  | zero => exact walk_append_of fun _ _ => rfl
  | succ limit ih => exact walk_append_of fun _ _ => ih

theorem realPathWith_append {onward : List ν → List (Step ν) → Option (List ν)} :
    realPathWith t onward base (xs ++ ys) =
      (realPathWith t onward base xs).bind fun q => realPathWith t onward q ys := by
  induction xs generalizing base with
  | nil => rfl
  | cons x xs ih =>
      cases x with
      | here => exact ih
      | up => exact ih
      | down s =>
          rw [List.cons_append, realPathWith, realPathWith]
          split
          · rfl
          · split
            · rfl
            · exact ih
          · exact ih

theorem realPath_append : realPath t depth base (xs ++ ys) =
    (realPath t depth base xs).bind fun q => realPath t depth q ys := by
  cases depth <;> exact realPathWith_append

/-! A path with no link on it leads to itself. -/

theorem Physical.isDirectory_above (h : t.WellFormed) (hp : Physical t (p ++ q)) (hq : q ≠ []) :
    t.isDirectory p = true := by
  obtain ⟨n, hn, -⟩ := hp
  exact isDirectory_iff.2 (h.above hq (by simp [hn]))

theorem Physical.above (h : t.WellFormed) (hp : Physical t (p ++ q)) : Physical t p := by
  by_cases hq : q = []
  · rwa [hq, List.append_nil] at hp
  · exact ⟨.directory, isDirectory_iff.1 (hp.isDirectory_above h hq), rfl⟩

theorem walk_physical (h : t.WellFormed) (hp : Physical t (base ++ p)) :
    walk t limit base (down p) = some (base ++ p, limit) := by
  induction p generalizing base with
  | nil => rw [List.append_nil]; exact walk_nil
  | cons s p ih =>
      have hnext : base ++ s :: p = base ++ [s] ++ p := by simp
      rw [hnext] at hp ⊢
      obtain ⟨n, hn, hplain⟩ := hp.above h
      have hbase : t.isDirectory base = true :=
        isDirectory_iff.2 (h.closed base s (by simp [hn]))
      rw [down, List.map_cons, walk_plain hbase hn hplain]
      exact ih hp

theorem realPathWith_plain {onward : List ν → List (Step ν) → Option (List ν)}
    (hn : t.node (base ++ [s]) = some n) (hplain : n.isLink = false) :
    realPathWith t onward base (.down s :: xs) = realPathWith t onward (base ++ [s]) xs := by
  rw [realPathWith]
  simp only [hn]
  cases n with
  | symlink target => cases hplain
  | _ => rfl

theorem realPath_plain (hn : t.node (base ++ [s]) = some n) (hplain : n.isLink = false) :
    realPath t depth base (.down s :: xs) = realPath t depth (base ++ [s]) xs := by
  cases depth <;> exact realPathWith_plain hn hplain

theorem realPath_nil : realPath t depth base [] = some base := by
  cases depth <;> rfl

theorem Real.physical (h : t.WellFormed) (hreal : Real t base xs p) (hbase : Physical t base) :
    Physical t p := by
  induction hreal with
  | nil => exact hbase
  | here _ ih => exact ih hbase
  | @up base rest p tail ih =>
      refine ih ?_
      by_cases hnil : base = []
      · rw [hnil]
        exact ⟨.directory, rfl, rfl⟩
      · rw [← List.dropLast_append_getLast hnil] at hbase
        exact hbase.above h
  | down found plain _ ih => exact ih ⟨_, found, plain⟩
  | @link base s target q rest p found head tail ihhead ihtail =>
      refine ihtail (ihhead ?_)
      unfold LinkText.start
      split
      · exact ⟨.directory, rfl, rfl⟩
      · exact hbase

end Follows

end LinkedTree
