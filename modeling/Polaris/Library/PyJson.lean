import Mathlib.Data.String.Basic
import Polaris.Library.SortedDict
import Polaris.Library.PyValue

namespace PyJson
open SortedDict

namespace PyVal

mutual
def normal : PyVal → PyVal
  | .seq _ xs => .seq .list (normalItems xs)
  | .map _ es => .map .dict (sortKeys (normalEntries es))
  | v => v
def normalItems : List PyVal → List PyVal
  | [] => []
  | x :: xs => normal x :: normalItems xs
def normalEntries : List (String × PyVal) → List (String × PyVal)
  | [] => []
  | (k, x) :: es => (k, normal x) :: normalEntries es
end

mutual
def IsNormal : PyVal → Prop
  | .seq k xs => k = .list ∧ AllNormal xs
  | .map k es => k = .dict ∧ Sorted es ∧ EntriesNormal es
  | _ => True
def AllNormal : List PyVal → Prop
  | [] => True
  | x :: xs => IsNormal x ∧ AllNormal xs
def EntriesNormal : List (String × PyVal) → Prop
  | [] => True
  | (_, x) :: es => IsNormal x ∧ EntriesNormal es
end

theorem entriesNormal_iff {es : List (String × PyVal)} :
    EntriesNormal es ↔ ∀ e ∈ es, IsNormal e.2 := by
  induction es with
  | nil => simp [EntriesNormal]
  | cons e es ih => obtain ⟨k, x⟩ := e; simp [EntriesNormal, ih]

theorem mem_sortKeys {κ β : Type} [LinearOrder κ] {es : List (κ × β)} {e : κ × β}
    (h : e ∈ sortKeys es) : e ∈ es := by
  suffices hs : ∀ acc : List (κ × β), e ∈ es.foldl (fun acc e => insertKey e.1 e.2 acc) acc →
      e ∈ acc ∨ e ∈ es by simpa using hs [] h
  clear h
  induction es with
  | nil => exact fun acc h => .inl h
  | cons f es ih =>
      intro acc h
      rcases ih _ h with h | h
      · rcases mem_insertKey h with rfl | h
        · exact .inr (by simp)
        · exact .inl h
      · exact .inr (List.mem_cons_of_mem _ h)

mutual
theorem normal_isNormal : ∀ v : PyVal, IsNormal (normal v)
  | .null | .bool _ | .int _ | .float _ | .str _ => by simp [normal, IsNormal]
  | .seq _ xs => ⟨rfl, normalItems_allNormal xs⟩
  | .map _ es => ⟨rfl, sortKeys_sorted _, entriesNormal_iff.2 fun e he =>
      entriesNormal_iff.1 (normalEntries_entriesNormal es) e (mem_sortKeys he)⟩
theorem normalItems_allNormal : ∀ xs : List PyVal, AllNormal (normalItems xs)
  | [] => trivial
  | x :: xs => ⟨normal_isNormal x, normalItems_allNormal xs⟩
theorem normalEntries_entriesNormal : ∀ es : List (String × PyVal), EntriesNormal (normalEntries es)
  | [] => trivial
  | (_, x) :: es => ⟨normal_isNormal x, normalEntries_entriesNormal es⟩
end

mutual
theorem normal_of_isNormal : ∀ v : PyVal, IsNormal v → normal v = v
  | .null, _ | .bool _, _ | .int _, _ | .float _, _ | .str _, _ => rfl
  | .seq _ xs, h => by rw [normal, normalItems_of_allNormal xs h.2, h.1]
  | .map _ es, h => by
      rw [normal, normalEntries_of_entriesNormal es h.2.2, sortKeys_of_sorted h.2.1, h.1]
theorem normalItems_of_allNormal : ∀ xs : List PyVal, AllNormal xs → normalItems xs = xs
  | [], _ => rfl
  | x :: xs, h => by rw [normalItems, normal_of_isNormal x h.1, normalItems_of_allNormal xs h.2]
theorem normalEntries_of_entriesNormal :
    ∀ es : List (String × PyVal), EntriesNormal es → normalEntries es = es
  | [], _ => rfl
  | (k, x) :: es, h => by
      rw [normalEntries, normal_of_isNormal x h.1, normalEntries_of_entriesNormal es h.2]
end

@[simp] theorem normal_normal (v : PyVal) : normal (normal v) = normal v :=
  normal_of_isNormal _ (normal_isNormal v)

mutual
def allFinite : PyVal → Bool
  | .float (.finite _) => true
  | .float _ => false
  | .seq _ xs => itemsFinite xs
  | .map _ es => entriesFinite es
  | _ => true
def itemsFinite : List PyVal → Bool
  | [] => true
  | x :: xs => allFinite x && itemsFinite xs
def entriesFinite : List (String × PyVal) → Bool
  | [] => true
  | (_, x) :: es => allFinite x && entriesFinite es
end

theorem entriesFinite_iff {es : List (String × PyVal)} :
    entriesFinite es = true ↔ ∀ e ∈ es, e.2.allFinite = true := by
  induction es with
  | nil => simp [entriesFinite]
  | cons e es ih => simp [entriesFinite, ih]

end PyVal

open PyVal

def hexDigit (n : ℕ) : Char := Nat.digitChar n

def escape (c : Char) : List Char :=
  if c = '"' then ['\\', '"']
  else if c = '\\' then ['\\', '\\']
  else if c = '\n' then ['\\', 'n']
  else if c = '\r' then ['\\', 'r']
  else if c = '\t' then ['\\', 't']
  else if c = '\x0c' then ['\\', 'f']
  else if c = '\x08' then ['\\', 'b']
  else if c.toNat < 32 then
    ['\\', 'u', '0', '0', hexDigit (c.toNat / 16), hexDigit (c.toNat % 16)]
  else [c]

def stringText (s : String) : List Char := '"' :: (s.toList.flatMap escape ++ ['"'])

def intText (n : ℤ) : List Char :=
  if n < 0 then '-' :: Nat.toDigits 10 n.natAbs else Nat.toDigits 10 n.natAbs

def floatText : PyFloat → List Char
  | .finite literal => literal.chars
  | .nan => ['N', 'a', 'N']
  | .inf false => ['I', 'n', 'f', 'i', 'n', 'i', 't', 'y']
  | .inf true => ['-', 'I', 'n', 'f', 'i', 'n', 'i', 't', 'y']

mutual
def text : PyVal → List Char
  | .null => ['n', 'u', 'l', 'l']
  | .bool true => ['t', 'r', 'u', 'e']
  | .bool false => ['f', 'a', 'l', 's', 'e']
  | .int n => intText n
  | .float f => floatText f
  | .str s => stringText s
  | .seq _ [] => ['[', ']']
  | .seq _ (x :: xs) => '[' :: (text x ++ itemsText xs)
  | .map _ [] => ['{', '}']
  | .map _ ((k, x) :: es) => '{' :: (stringText k ++ ':' :: (text x ++ entriesText es))
def itemsText : List PyVal → List Char
  | [] => [']']
  | x :: xs => ',' :: (text x ++ itemsText xs)
def entriesText : List (String × PyVal) → List Char
  | [] => ['}']
  | (k, x) :: es => ',' :: (stringText k ++ ':' :: (text x ++ entriesText es))
end

/-- `json.dumps` with sorted keys, no blanks, no escaping of non-ASCII text and no
non-finite floats; `none` is its `ValueError`. -/
def dumps (v : PyVal) : Option String :=
  if v.allFinite then some (String.ofList (text v.normal)) else none

def isBlank (c : Char) : Bool := c == ' ' || c == '\t' || c == '\n' || c == '\r'

def skipBlanks (cs : List Char) : List Char := cs.dropWhile isBlank

def hexValue (c : Char) : Option ℕ :=
  if c.isDigit then some (c.toNat - 48)
  else if 'a' ≤ c ∧ c ≤ 'f' then some (c.toNat - 87)
  else if 'A' ≤ c ∧ c ≤ 'F' then some (c.toNat - 55)
  else none

def hex4 (a b c d : Char) : Option ℕ := do
  return ((← hexValue a) * 16 + (← hexValue b)) * 256 + (← hexValue c) * 16 + (← hexValue d)

def unescape : Char → Option Char
  | '"' => some '"'
  | '\\' => some '\\'
  | '/' => some '/'
  | 'b' => some '\x08'
  | 'f' => some '\x0c'
  | 'n' => some '\n'
  | 'r' => some '\r'
  | 't' => some '\t'
  | _ => none

def readString : List Char → Option (List (Char ⊕ ℕ) × List Char)
  | [] => none
  | '"' :: cs => some ([], cs)
  | '\\' :: 'u' :: a :: b :: c :: d :: cs => do
      let u ← hex4 a b c d
      (readString cs).map fun p => (.inr u :: p.1, p.2)
  | '\\' :: c :: cs => do
      let e ← unescape c
      (readString cs).map fun p => (.inl e :: p.1, p.2)
  | c :: cs =>
      if c.toNat < 32 then none else (readString cs).map fun p => (.inl c :: p.1, p.2)

/-- Pairs of surrogate escapes become one character. A lone surrogate has no
character and is refused. -/
def joinUnits : List (Char ⊕ ℕ) → Option (List Char)
  | [] => some []
  | .inl c :: units => (joinUnits units).map (c :: ·)
  | .inr u :: .inr l :: units =>
      if 0xd800 ≤ u ∧ u < 0xdc00 then
        if 0xdc00 ≤ l ∧ l < 0xe000 then
          (joinUnits units).map (Char.ofNat (0x10000 + (u - 0xd800) * 0x400 + (l - 0xdc00)) :: ·)
        else none
      else if 0xdc00 ≤ u ∧ u < 0xe000 then none
      else (joinUnits (.inr l :: units)).map (Char.ofNat u :: ·)
  | .inr u :: units =>
      if 0xd800 ≤ u ∧ u < 0xe000 then none else (joinUnits units).map (Char.ofNat u :: ·)

def parseString (cs : List Char) : Option (List Char × List Char) := do
  let (units, rest) ← readString cs
  return (← joinUnits units, rest)

def integerValue : List Char → ℤ
  | '-' :: cs => -(Nat.ofDigitChars 10 cs 0 : ℤ)
  | cs => (Nat.ofDigitChars 10 cs 0 : ℤ)

def parseNumber (cs : List Char) : Option (PyVal × List Char) :=
  let literal := cs.takeWhile isNumberChar
  let rest := cs.dropWhile isNumberChar
  if isInteger literal then some (.int (integerValue literal), rest)
  else if h : isFloat literal = true then some (.float (.finite ⟨literal, h⟩), rest)
  else none

def keyword : List Char → Option (PyVal × List Char)
  | 'n' :: 'u' :: 'l' :: 'l' :: cs => some (.null, cs)
  | 't' :: 'r' :: 'u' :: 'e' :: cs => some (.bool true, cs)
  | 'f' :: 'a' :: 'l' :: 's' :: 'e' :: cs => some (.bool false, cs)
  | 'N' :: 'a' :: 'N' :: cs => some (.float .nan, cs)
  | 'I' :: 'n' :: 'f' :: 'i' :: 'n' :: 'i' :: 't' :: 'y' :: cs => some (.float (.inf false), cs)
  | '-' :: 'I' :: 'n' :: 'f' :: 'i' :: 'n' :: 'i' :: 't' :: 'y' :: cs =>
      some (.float (.inf true), cs)
  | _ => none

mutual
def parseValue : ℕ → List Char → Option (PyVal × List Char)
  | 0, _ => none
  | _ + 1, [] => none
  | n + 1, c :: cs =>
      if c = '"' then do
        let (s, rest) ← parseString cs
        return (.str (String.ofList s), rest)
      else if c = '[' then
        match skipBlanks cs with
        | ']' :: rest => some (.seq .list [], rest)
        | cs => do
            let (xs, rest) ← parseItems n cs
            return (.seq .list xs, rest)
      else if c = '{' then
        match skipBlanks cs with
        | '}' :: rest => some (.map .dict [], rest)
        | cs => do
            let (es, rest) ← parseEntries n cs
            return (.map .dict (ofPairs es), rest)
      else (keyword (c :: cs)).or (parseNumber (c :: cs))
def parseItems : ℕ → List Char → Option (List PyVal × List Char)
  | 0, _ => none
  | n + 1, cs => do
      let (x, rest) ← parseValue n cs
      match skipBlanks rest with
      | ']' :: rest => return ([x], rest)
      | ',' :: rest => do
          let (xs, rest) ← parseItems n (skipBlanks rest)
          return (x :: xs, rest)
      | _ => none
def parseEntries : ℕ → List Char → Option (List (String × PyVal) × List Char)
  | n + 1, '"' :: cs => do
      let (k, rest) ← parseString cs
      match skipBlanks rest with
      | ':' :: rest => do
          let (x, rest) ← parseValue n (skipBlanks rest)
          match skipBlanks rest with
          | '}' :: rest => return ([(String.ofList k, x)], rest)
          | ',' :: rest => do
              let (es, rest) ← parseEntries n (skipBlanks rest)
              return ((String.ofList k, x) :: es, rest)
          | _ => none
      | _ => none
  | _, _ => none
end

/-- `json.loads`; `none` is its `JSONDecodeError`. -/
def loads (s : String) : Option PyVal := do
  let (v, rest) ← parseValue (s.toList.length + 1) (skipBlanks s.toList)
  if skipBlanks rest = [] then some v else none

end PyJson
