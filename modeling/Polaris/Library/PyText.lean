import Mathlib.Data.List.Basic
import Polaris.Library.PyJson

namespace PyJson

/-- A code point; the surrogates are no characters. -/
abbrev CodePoint := Fin 0x110000

/-- Python's `str`, which can hold lone surrogates. -/
abbrev PyText := List CodePoint

instance : LawfulBEq PyText := inferInstance

namespace CodePoint

theorem toNat_lt (c : Char) : c.toNat < 0x110000 := by
  rcases c.valid with h | ⟨-, h⟩
  · exact Nat.lt_trans h (by decide)
  · exact h

def ofChar (c : Char) : CodePoint := ⟨c.toNat, toNat_lt c⟩

def toChar? (c : CodePoint) : Option Char :=
  if h : c.val.isValidChar then some (Char.ofNatAux c.val h) else none

theorem toChar?_iff {c : CodePoint} {x : Char} : c.toChar? = some x ↔ c = ofChar x := by
  unfold toChar?
  constructor
  · intro h
    by_cases hvalid : c.val.isValidChar
    · rw [dif_pos hvalid] at h
      obtain rfl := Option.some.inj h
      rfl
    · rw [dif_neg hvalid] at h
      cases h
  · rintro rfl
    have hvalid : (ofChar x).val.isValidChar := x.valid
    rw [dif_pos hvalid]
    rfl

end CodePoint

namespace PyText
open CodePoint

def ofString (s : String) : PyText := s.toList.map ofChar

def encodeChars : PyText → Option (List Char)
  | [] => some []
  | c :: cs => do
      let x ← c.toChar?
      let xs ← encodeChars cs
      return x :: xs

/-- `str.encode`, which lone surrogates fail. -/
def encode (t : PyText) : Option String := (encodeChars t).map String.ofList

theorem encodeChars_iff {t : PyText} {xs : List Char} :
    encodeChars t = some xs ↔ t = xs.map ofChar := by
  induction t generalizing xs with
  | nil => cases xs <;> simp [encodeChars]
  | cons c cs ih =>
      cases xs with
      | nil => simp [encodeChars, Option.bind_eq_some_iff]
      | cons x xs => simp [encodeChars, Option.bind_eq_some_iff, toChar?_iff, ih]

theorem encode_iff {t : PyText} {s : String} : t.encode = some s ↔ t = ofString s := by
  simp only [encode, Option.map_eq_some_iff, encodeChars_iff]
  constructor
  · rintro ⟨xs, rfl, rfl⟩
    simp [ofString]
  · rintro rfl
    exact ⟨s.toList, rfl, by simp⟩

@[simp] theorem encode_ofString (s : String) : (ofString s).encode = some s := encode_iff.2 rfl

theorem ofString_injective : Function.Injective ofString := by
  intro s s' h
  have hencode := encode_ofString s
  rw [h, encode_ofString] at hencode
  exact (Option.some.inj hencode).symm

theorem encodeChars_append {t t' : PyText} : encodeChars (t ++ t') =
    (encodeChars t).bind fun xs => (encodeChars t').map (xs ++ ·) := by
  induction t with
  | nil => simp [encodeChars]
  | cons c cs ih =>
      simp only [List.cons_append, encodeChars, ih]
      cases toChar? c <;> cases encodeChars cs <;> cases encodeChars t' <;> rfl

/-- No character of the text is a lone surrogate. -/
def isEncodable (t : PyText) : Bool := t.encode.isSome

theorem isEncodable_iff {t : PyText} : t.isEncodable = true ↔ ∃ s, t = ofString s := by
  rw [isEncodable, Option.isSome_iff_exists]
  exact exists_congr fun s => encode_iff

@[simp] theorem isEncodable_ofString (s : String) : (ofString s).isEncodable = true :=
  isEncodable_iff.2 ⟨s, rfl⟩

@[simp] theorem isEncodable_append {t t' : PyText} :
    (t ++ t').isEncodable = (t.isEncodable && t'.isEncodable) := by
  simp only [isEncodable, encode, Option.isSome_map, encodeChars_append]
  cases encodeChars t <;> cases encodeChars t' <;> rfl

end PyText

/-- A value as Python's `json` module decodes it. -/
inductive RawJson where
  | null
  | bool (b : Bool)
  | int (n : ℤ)
  | float (f : PyFloat)
  | str (t : PyText)
  | arr (items : List RawJson)
  | obj (entries : List (PyText × RawJson))

namespace RawJson

mutual
/-- The value when every text of it is encoded. -/
def encode : RawJson → Option PyVal
  | .null => some .null
  | .bool b => some (.bool b)
  | .int n => some (.int n)
  | .float f => some (.float f)
  | .str t => t.encode.map .str
  | .arr items => (encodeItems items).map (.seq .list)
  | .obj entries => (encodeEntries entries).map (.map .dict)
def encodeItems : List RawJson → Option (List PyVal)
  | [] => some []
  | x :: xs => do
      let v ← encode x
      let vs ← encodeItems xs
      return v :: vs
def encodeEntries : List (PyText × RawJson) → Option (List (String × PyVal))
  | [] => some []
  | (k, x) :: es => do
      let key ← k.encode
      let v ← encode x
      let vs ← encodeEntries es
      return (key, v) :: vs
end

mutual
def allFinite : RawJson → Bool
  | .float (.finite _) => true
  | .float _ => false
  | .arr items => itemsFinite items
  | .obj entries => entriesFinite entries
  | _ => true
def itemsFinite : List RawJson → Bool
  | [] => true
  | x :: xs => allFinite x && itemsFinite xs
def entriesFinite : List (PyText × RawJson) → Bool
  | [] => true
  | (_, x) :: es => allFinite x && entriesFinite es
end

mutual
theorem allFinite_encode : ∀ {x : RawJson} {v : PyVal}, x.encode = some v →
    v.allFinite = x.allFinite
  | .null, v, h | .bool _, v, h | .int _, v, h => by
      obtain rfl := Option.some.inj h
      rfl
  | .float f, v, h => by
      obtain rfl := Option.some.inj h
      cases f <;> rfl
  | .str t, v, h => by
      simp only [encode, Option.map_eq_some_iff] at h
      obtain ⟨s, -, rfl⟩ := h
      rfl
  | .arr items, v, h => by
      simp only [encode, Option.map_eq_some_iff] at h
      obtain ⟨vs, hvs, rfl⟩ := h
      exact itemsFinite_encode hvs
  | .obj entries, v, h => by
      simp only [encode, Option.map_eq_some_iff] at h
      obtain ⟨vs, hvs, rfl⟩ := h
      exact entriesFinite_encode hvs
theorem itemsFinite_encode : ∀ {xs : List RawJson} {vs : List PyVal}, encodeItems xs = some vs →
    PyVal.itemsFinite vs = itemsFinite xs
  | [], vs, h => by
      obtain rfl := Option.some.inj h
      rfl
  | x :: xs, vs, h => by
      simp only [encodeItems, Option.bind_eq_bind, Option.bind_eq_some_iff, Option.pure_def,
        Option.some.injEq] at h
      obtain ⟨v, hv, vs', hvs, rfl⟩ := h
      simp [PyVal.itemsFinite, itemsFinite, allFinite_encode hv, itemsFinite_encode hvs]
theorem entriesFinite_encode : ∀ {es : List (PyText × RawJson)} {vs : List (String × PyVal)},
    encodeEntries es = some vs → PyVal.entriesFinite vs = entriesFinite es
  | [], vs, h => by
      obtain rfl := Option.some.inj h
      rfl
  | (k, x) :: es, vs, h => by
      simp only [encodeEntries, Option.bind_eq_bind, Option.bind_eq_some_iff, Option.pure_def,
        Option.some.injEq] at h
      obtain ⟨key, -, v, hv, vs', hvs, rfl⟩ := h
      simp [PyVal.entriesFinite, entriesFinite, allFinite_encode hv, entriesFinite_encode hvs]
end

def get (key : String) (entries : List (PyText × RawJson)) : RawJson :=
  (entries.lookup (PyText.ofString key)).getD .null

theorem lookup_encode {entries : List (PyText × RawJson)} {es : List (String × PyVal)} {key : String}
    (h : encodeEntries entries = some es) :
    SortedDict.lookup key es = (entries.lookup (PyText.ofString key)).bind encode := by
  induction entries generalizing es with
  | nil =>
      obtain rfl := Option.some.inj h
      rfl
  | cons e entries ih =>
      obtain ⟨k, x⟩ := e
      simp only [encodeEntries, Option.bind_eq_bind, Option.bind_eq_some_iff, Option.pure_def,
        Option.some.injEq] at h
      obtain ⟨s, hs, v, hv, vs, hvs, rfl⟩ := h
      obtain rfl := PyText.encode_iff.1 hs
      by_cases hkey : key = s
      · subst hkey
        simp [SortedDict.lookup, hv]
      · have hne : PyText.ofString key ≠ PyText.ofString s :=
          fun heq => hkey (PyText.ofString_injective heq)
        have hbeq : (PyText.ofString key == PyText.ofString s) = false := by simpa using hne
        rw [SortedDict.lookup, if_neg hkey, ih hvs, List.lookup_cons, hbeq]

theorem lookup_encode_isSome {entries : List (PyText × RawJson)} {es : List (String × PyVal)}
    {key : PyText} {x : RawJson} (h : encodeEntries entries = some es)
    (hx : entries.lookup key = some x) : x.encode.isSome = true := by
  induction entries generalizing es with
  | nil => simp at hx
  | cons e entries ih =>
      obtain ⟨k, y⟩ := e
      simp only [encodeEntries, Option.bind_eq_bind, Option.bind_eq_some_iff, Option.pure_def,
        Option.some.injEq] at h
      obtain ⟨s, -, v, hv, vs, hvs, rfl⟩ := h
      rw [List.lookup_cons] at hx
      split at hx
      · obtain rfl := Option.some.inj hx
        simp [hv]
      · exact ih hvs hx

theorem get_encode {entries : List (PyText × RawJson)} {es : List (String × PyVal)} (key : String)
    (h : encodeEntries entries = some es) :
    (get key entries).encode = some ((SortedDict.lookup key es).getD .null) := by
  rw [lookup_encode h, get]
  cases hx : entries.lookup (PyText.ofString key) with
  | none => rfl
  | some x =>
      obtain ⟨v, hv⟩ := Option.isSome_iff_exists.1 (lookup_encode_isSome h hx)
      simp [hv]

def mapping? : RawJson → Option (List (PyText × RawJson))
  | .obj entries => some entries
  | _ => none

end RawJson

end PyJson
