import Mathlib.Data.List.Basic
import Mathlib.Tactic.Common

namespace PyJson

inductive SeqKind where
  | list
  | tuple
deriving DecidableEq, Repr

inductive MapKind where
  | dict
  | proxy
deriving DecidableEq, Repr

def isNumberChar (c : Char) : Bool :=
  c.isDigit || c == '-' || c == '+' || c == '.' || c == 'e' || c == 'E'

def dropSign : List Char → List Char
  | '-' :: cs => cs
  | cs => cs

def isWhole : List Char → Bool
  | [] => false
  | ['0'] => true
  | c :: cs => c.isDigit && c != '0' && cs.all Char.isDigit

def isInteger (cs : List Char) : Bool := isWhole (dropSign cs)

def isExponent : List Char → Bool
  | '-' :: cs => !cs.isEmpty && cs.all Char.isDigit
  | '+' :: cs => !cs.isEmpty && cs.all Char.isDigit
  | cs => !cs.isEmpty && cs.all Char.isDigit

def isMarker (c : Char) : Bool := c == 'e' || c == 'E'

def isFloatTail : List Char → Bool
  | '.' :: cs =>
      let digits := cs.takeWhile Char.isDigit
      let rest := cs.dropWhile Char.isDigit
      !digits.isEmpty && match rest with
        | [] => true
        | c :: exponent => isMarker c && isExponent exponent
  | c :: exponent => isMarker c && isExponent exponent
  | [] => false

def isFloat (cs : List Char) : Bool :=
  isWhole ((dropSign cs).takeWhile Char.isDigit) && isFloatTail ((dropSign cs).dropWhile Char.isDigit)

/-- A finite double stands for its `repr`, which determines it. -/
structure FloatLiteral where
  chars : List Char
  wellFormed : isFloat chars = true
deriving DecidableEq, Repr

inductive PyFloat where
  | finite (literal : FloatLiteral)
  | nan
  | inf (negative : Bool)
deriving DecidableEq, Repr

inductive PyVal where
  | null
  | bool (b : Bool)
  | int (n : Int)
  | float (f : PyFloat)
  | str (s : String)
  | seq (kind : SeqKind) (items : List PyVal)
  | map (kind : MapKind) (entries : List (String × PyVal))
deriving Repr

namespace PyVal

mutual
def beq : PyVal → PyVal → Bool
  | .null, .null => true
  | .bool a, .bool b => a == b
  | .int a, .int b => a == b
  | .float a, .float b => decide (a = b)
  | .str a, .str b => a == b
  | .seq k xs, .seq l ys => decide (k = l) && beqItems xs ys
  | .map k es, .map l fs => decide (k = l) && beqEntries es fs
  | _, _ => false
def beqItems : List PyVal → List PyVal → Bool
  | [], [] => true
  | x :: xs, y :: ys => beq x y && beqItems xs ys
  | _, _ => false
def beqEntries : List (String × PyVal) → List (String × PyVal) → Bool
  | [], [] => true
  | (k, x) :: es, (l, y) :: fs => k == l && beq x y && beqEntries es fs
  | _, _ => false
end

mutual
theorem beq_iff : ∀ v w : PyVal, beq v w = true ↔ v = w
  | .null, w => by cases w <;> simp [beq]
  | .bool a, w => by cases w <;> simp [beq]
  | .int a, w => by cases w <;> simp [beq]
  | .float a, w => by cases w <;> simp [beq]
  | .str a, w => by cases w <;> simp [beq]
  | .seq k xs, w => by cases w <;> simp [beq, beqItems_iff xs]
  | .map k es, w => by cases w <;> simp [beq, beqEntries_iff es]
theorem beqItems_iff : ∀ xs ys : List PyVal, beqItems xs ys = true ↔ xs = ys
  | [], ys => by cases ys <;> simp [beqItems]
  | x :: xs, ys => by cases ys <;> simp [beqItems, beq_iff x, beqItems_iff xs]
theorem beqEntries_iff : ∀ es fs : List (String × PyVal), beqEntries es fs = true ↔ es = fs
  | [], fs => by cases fs <;> simp [beqEntries]
  | (k, x) :: es, fs => by
      cases fs with
      | nil => simp [beqEntries]
      | cons f fs => obtain ⟨l, y⟩ := f; simp [beqEntries, beq_iff x, beqEntries_iff es]
end

instance : DecidableEq PyVal := fun v w => decidable_of_iff _ (beq_iff v w)

mutual
def isPlain : PyVal → Bool
  | .seq .list xs => itemsPlain xs
  | .seq .tuple _ => false
  | .map .dict es => decide (es.map Prod.fst).Nodup && entriesPlain es
  | .map .proxy _ => false
  | _ => true
def itemsPlain : List PyVal → Bool
  | [] => true
  | x :: xs => isPlain x && itemsPlain xs
def entriesPlain : List (String × PyVal) → Bool
  | [] => true
  | (_, x) :: es => isPlain x && entriesPlain es
end

theorem entriesPlain_iff {es : List (String × PyVal)} :
    entriesPlain es = true ↔ ∀ e ∈ es, e.2.isPlain = true := by
  induction es with
  | nil => simp [entriesPlain]
  | cons e es ih => obtain ⟨k, x⟩ := e; simp [entriesPlain, ih]

mutual
def mapFree : PyVal → Bool
  | .seq _ xs => itemsMapFree xs
  | .map _ _ => false
  | _ => true
def itemsMapFree : List PyVal → Bool
  | [] => true
  | x :: xs => mapFree x && itemsMapFree xs
end

mutual
def arrayFree : PyVal → Bool
  | .seq _ _ => false
  | .map _ es => entriesArrayFree es
  | _ => true
def entriesArrayFree : List (String × PyVal) → Bool
  | [] => true
  | (_, x) :: es => arrayFree x && entriesArrayFree es
end

end PyVal

end PyJson
