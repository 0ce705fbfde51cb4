import Polaris.Library.PyText

/-! `pathlib`'s pure paths, which are texts cut at their slashes. -/

namespace PosixPath
open PyJson

def slash : CodePoint := CodePoint.ofChar '/'

def dot : PyText := PyText.ofString "."

def dotdot : PyText := PyText.ofString ".."

def isAbsolute (t : PyText) : Bool := t.head? = some slash

/-- The parts of a path; what is absolute has its root before them. -/
def parts (t : PyText) : List PyText := (t.splitOn slash).filter fun s => s ≠ [] ∧ s ≠ dot

/-- The text of a relative path of these parts. -/
def joined (ps : List PyText) : PyText := if ps = [] then dot else [slash].intercalate ps

/-- A code point of a name that the file system gives: a character, or a byte that is none. -/
def isNameCode (c : CodePoint) : Bool :=
  c.val ≠ 0 && c ≠ slash && (c.val < 0xD800 || (0xDC80 ≤ c.val && c.val ≤ 0xDCFF) || 0xE000 ≤ c.val)

def isFileName (t : PyText) : Bool :=
  t ≠ [] && t ≠ dot && t ≠ dotdot && t.all isNameCode

structure FileName where
  text : PyText
  legal : isFileName text = true
deriving DecidableEq

abbrev FilePath := List FileName

def texts (p : FilePath) : List PyText := p.map FileName.text

/-- `as_posix` -/
def posix (p : FilePath) : PyText := joined (texts p)

/-- Any other part fails the calls that it is given to. -/
def ofParts : List PyText → Option FilePath
  | [] => some []
  | t :: ts => if h : isFileName t then (ofParts ts).map (⟨t, h⟩ :: ·) else none

namespace FileName

theorem ne_nil (s : FileName) : s.text ≠ [] := by
  have hlegal := s.legal
  simp only [isFileName, Bool.and_eq_true, decide_eq_true_eq] at hlegal
  exact hlegal.1.1.1

theorem ne_dot (s : FileName) : s.text ≠ dot := by
  have hlegal := s.legal
  simp only [isFileName, Bool.and_eq_true, decide_eq_true_eq] at hlegal
  exact hlegal.1.1.2

theorem ne_dotdot (s : FileName) : s.text ≠ dotdot := by
  have hlegal := s.legal
  simp only [isFileName, Bool.and_eq_true, decide_eq_true_eq] at hlegal
  exact hlegal.1.2

theorem isNameCode (s : FileName) : ∀ c ∈ s.text, PosixPath.isNameCode c = true := by
  have hlegal := s.legal
  simp only [isFileName, Bool.and_eq_true, List.all_eq_true] at hlegal
  exact hlegal.2

theorem slash_notMem (s : FileName) : slash ∉ s.text := by
  intro hmem
  have hcode := s.isNameCode slash hmem
  simp [PosixPath.isNameCode] at hcode

theorem text_injective : Function.Injective text := by
  rintro ⟨t, h⟩ ⟨t', h'⟩ rfl
  rfl

end FileName

variable {p q : FilePath} {t : PyText} {ts : List PyText}

theorem notMem_splitOn {α : Type} [DecidableEq α] {a : α} {xs ys : List α}
    (h : ys ∈ xs.splitOn a) : a ∉ ys := by
  induction xs generalizing ys with
  | nil =>
      obtain rfl := List.mem_singleton.1 h
      exact List.not_mem_nil
  | cons x xs ih =>
      rw [List.splitOn_cons_eq_if_modifyHead] at h
      split at h
      · rcases List.mem_cons.1 h with rfl | h
        · exact List.not_mem_nil
        · exact ih h
      · rename_i hx
        cases hsplit : xs.splitOn a with
        | nil => exact absurd hsplit (List.splitOn_ne_nil a xs)
        | cons zs rest =>
            rw [hsplit, List.modifyHead_cons] at h
            rw [hsplit] at ih
            rcases List.mem_cons.1 h with rfl | h
            · intro hmem
              rcases List.mem_cons.1 hmem with rfl | hmem
              · simp at hx
              · exact ih (List.mem_cons_self ..) hmem
            · exact ih (List.mem_cons_of_mem _ h)

theorem texts_injective : Function.Injective texts :=
  List.map_injective_iff.2 FileName.text_injective

theorem ofParts_iff : ofParts ts = some p ↔ ts = texts p := by
  induction ts generalizing p with
  | nil => cases p <;> simp [ofParts, texts]
  | cons t ts ih =>
      rw [ofParts]
      split
      · rename_i hlegal
        cases p with
        | nil => simp [texts]
        | cons s p =>
            rw [Option.map_eq_some_iff]
            constructor
            · rintro ⟨q, hq, heq⟩
              obtain ⟨rfl, rfl⟩ := List.cons.inj heq
              exact congrArg (t :: ·) (ih.1 hq)
            · intro heq
              obtain ⟨rfl, hrest⟩ := List.cons.inj heq
              exact ⟨p, ih.2 hrest, rfl⟩
      · rename_i hillegal
        cases p with
        | nil => simp [texts]
        | cons s p =>
            refine iff_of_false (by simp) fun heq => ?_
            obtain ⟨rfl, -⟩ := List.cons.inj heq
            exact hillegal s.legal

theorem posix_of_ne_nil (h : p ≠ []) : posix p = [slash].intercalate (texts p) := by
  rw [posix, joined, if_neg]
  simpa [texts] using h

theorem parts_posix (h : p ≠ []) : parts (posix p) = texts p := by
  have hslash : ∀ l ∈ texts p, slash ∉ l := by
    intro l hl
    obtain ⟨s, -, rfl⟩ := List.mem_map.1 hl
    exact s.slash_notMem
  rw [parts, posix_of_ne_nil h, List.splitOn_intercalate slash hslash (by simpa [texts] using h)]
  refine List.filter_eq_self.2 fun l hl => ?_
  obtain ⟨s, -, rfl⟩ := List.mem_map.1 hl
  simp [s.ne_nil, s.ne_dot]

theorem posix_inj (hp : p ≠ []) (hq : q ≠ []) (h : posix p = posix q) : p = q := by
  apply texts_injective
  rw [← parts_posix hp, ← parts_posix hq, h]

theorem isAbsolute_posix (h : p ≠ []) : isAbsolute (posix p) = false := by
  obtain ⟨s, p, rfl⟩ := List.exists_cons_of_ne_nil h
  obtain ⟨c, cs, htext⟩ := List.exists_cons_of_ne_nil s.ne_nil
  have hc : c ≠ slash := by
    rintro rfl
    exact s.slash_notMem (htext ▸ List.mem_cons_self ..)
  rw [posix_of_ne_nil h, isAbsolute, texts, List.map_cons, htext]
  cases hrest : p.map FileName.text with
  | nil => simp [hc]
  | cons t ts => simp [List.intercalate_cons_cons, hc]

theorem dotdot_notMem_texts : dotdot ∉ texts p := by
  intro hmem
  obtain ⟨s, -, hs⟩ := List.mem_map.1 hmem
  exact s.ne_dotdot hs

end PosixPath
