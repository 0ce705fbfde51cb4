import Polaris.Library.Transaction
import Polaris.Providers.Base

namespace Polaris
open PyJson SortedDict

namespace SecretsFile

def maxSecretsFileSize : ℕ := 64 * 1024

def secretsError (message : String) : PyError := ⟨.other "SecretsFileError", message⟩

def isNameStart (c : Char) : Bool := c.isAlpha || c = '_'

def isNameChar (c : Char) : Bool := c.isAlphanum || c = '_'

/-- `[A-Za-z_][A-Za-z0-9_]*` -/
def isEnvName (name : List Char) : Bool :=
  match name with
  | [] => false
  | c :: cs => isNameStart c && cs.all isNameChar

def isWithin (needle text : List Char) : Bool := text.tails.any needle.isPrefixOf

def validateSecretName (name : List Char) : Except PyError Unit :=
  if isEnvName name then .ok ()
  else .error (secretsError "secret name must be a valid environment variable name")

def validateSecretValue (value : List Char) : Except PyError Unit :=
  if '\x00' ∈ value ∨ '\r' ∈ value ∨ '\n' ∈ value then
    .error (secretsError "secret value must be a single NUL-free line")
  else if isWithin ['$', '('] value || value.contains '`' then
    .error (secretsError "secret value must not contain command expansion syntax")
  else .ok ()

def isComment (line : List Char) : Bool := ['#'].isPrefixOf (line.dropWhile isSpace)

/-- `line.split("=", 1)` of a line with an equals sign -/
def assignment (line : List Char) : List Char × List Char :=
  (line.takeWhile (· ≠ '='), (line.dropWhile (· ≠ '=')).drop 1)

def validateSecret (lineNumber : ℕ) (name value : List Char) : Except PyError Unit :=
  match (do validateSecretName name; validateSecretValue value : Except PyError Unit) with
  | .ok () => .ok ()
  | .error e =>
      .error (secretsError ("invalid secret on line " ++ toString lineNumber ++ ": " ++ e.message))

def parseLines : ℕ → List (List Char) → List (String × String) →
    Except PyError (List (String × String))
  | _, [], values => .ok values
  | lineNumber, line :: lines, values =>
      if line = [] || isComment line then parseLines (lineNumber + 1) lines values
      else if "export ".toList.isPrefixOf line || !line.contains '=' then
        .error (secretsError ("invalid assignment on line " ++ toString lineNumber))
      else do
        let (name, value) := assignment line
        validateSecret lineNumber name value
        if (lookup (String.ofList name) values).isSome then
          .error (secretsError ("duplicate secret name " ++ Journal.pyRepr (String.ofList name)))
        else
          parseLines (lineNumber + 1) lines
            (setKey (String.ofList name) (String.ofList value) values)

/-- `text.split("\n")` -/
def linesOf (text : String) : List (List Char) := text.toList.splitOn '\n'

def parseSecrets (payload : ByteArray) : Except PyError (List (String × String)) :=
  if maxSecretsFileSize < payload.size then
    .error (secretsError "runtime secrets file exceeds 64 KiB")
  else
    match String.fromUTF8? payload with
    | none => .error (secretsError "runtime secrets file is not valid UTF-8")
    | some text =>
        if '\x00' ∈ text.toList then
          .error (secretsError "runtime secrets file contains a NUL byte")
        else if '\r' ∈ text.toList then
          .error (secretsError "runtime secrets file must use LF line endings")
        else parseLines 1 (linesOf text) []

def checkSecrets : List (String × String) → List (String × String) →
    Except PyError (List (String × String))
  | [], checked => .ok checked
  | (name, value) :: values, checked => do
      validateSecretName name.toList
      validateSecretValue value.toList
      if (lookup name checked).isSome then
        .error (secretsError ("duplicate secret name " ++ Journal.pyRepr name))
      else checkSecrets values (setKey name value checked)

def lineText (e : String × String) : List Char := e.1.toList ++ '=' :: e.2.toList ++ ['\n']

def textOf (checked : List (String × String)) : String :=
  String.ofList ((sortKeys checked).flatMap lineText)

def serialize (values : List (String × String)) : Except PyError ByteArray := do
  let checked ← checkSecrets values []
  let payload := (textOf checked).toUTF8
  if maxSecretsFileSize < payload.size then
    .error (secretsError "runtime secrets file exceeds 64 KiB")
  else .ok payload

/-- The file, `none` while there is none. -/
abbrev Op (α : Type) := Txn PyError (Option ByteArray) α

/-- `read(missing_ok=True)` of a file that the checks of its metadata let pass -/
def read : Op (List (String × String)) := do
  match ← Txn.read id with
  | none => return []
  | some payload => Txn.lift (parseSecrets payload)

def write (values : List (String × String)) : Op Unit := do
  let payload ← Txn.lift (serialize values)
  Txn.write fun _ => some payload

def set (name value : String) : Op Unit := do
  Txn.lift (validateSecretName name.toList)
  Txn.lift (validateSecretValue value.toList)
  let values ← read
  write (setKey name value values)

def remove (name : String) : Op Bool := do
  Txn.lift (validateSecretName name.toList)
  let values ← read
  if (lookup name values).isNone then return false
  else do
    write (values.filter fun e => e.1 ≠ name)
    return true

/-! Sizes of texts in bytes. -/

def byteSize (cs : List Char) : ℕ := (cs.map Char.utf8Size).sum

@[simp] theorem byteSize_nil : byteSize [] = 0 := rfl

@[simp] theorem byteSize_cons (c : Char) (cs : List Char) :
    byteSize (c :: cs) = c.utf8Size + byteSize cs := by
  simp [byteSize]

@[simp] theorem byteSize_append (cs ds : List Char) :
    byteSize (cs ++ ds) = byteSize cs + byteSize ds := by
  simp [byteSize]

theorem size_toUTF8 (text : String) : text.toUTF8.size = byteSize text.toList := by
  have hlist : ∀ cs : List Char, (String.ofList cs).utf8ByteSize = byteSize cs := by
    intro cs
    induction cs with
    | nil => rfl
    | cons c cs ih =>
        have hone : (String.ofList [c]).utf8ByteSize = c.utf8Size := by simp
        rw [← List.singleton_append, String.ofList_append, String.utf8ByteSize_append, ih, hone,
          List.singleton_append, byteSize_cons]
  rw [← hlist, String.ofList_toList]
  rfl

/-- Each line counts with the line feed that ends it. -/
def linesSize (lines : List (List Char)) : ℕ := (lines.map fun line => byteSize line + 1).sum

theorem linesSize_splitOn (cs : List Char) : linesSize (cs.splitOn '\n') = byteSize cs + 1 := by
  induction cs with
  | nil => rfl
  | cons c cs ih =>
      rw [List.splitOn_cons_eq_if_modifyHead]
      split
      · rename_i hc
        obtain rfl : c = '\n' := by simpa using hc
        rw [linesSize, List.map_cons, List.sum_cons]
        change byteSize [] + 1 + linesSize (cs.splitOn '\n') = _
        rw [ih, byteSize_nil, byteSize_cons]
        have hsize : ('\n').utf8Size = 1 := rfl
        omega
      · cases hlines : cs.splitOn '\n' with
        | nil => exact absurd hlines (List.splitOn_ne_nil _ _)
        | cons line lines =>
            rw [hlines] at ih
            simp only [linesSize, List.modifyHead_cons, List.map_cons, List.sum_cons,
              byteSize_cons] at ih ⊢
            omega

/-! What is read and what is written. -/

def IsValid (e : String × String) : Prop :=
  validateSecretName e.1.toList = .ok () ∧ validateSecretValue e.2.toList = .ok ()

/-- The lines assign these secrets; the lines between them are empty or comments. -/
inductive Assigns : List (List Char) → List (String × String) → Prop
  | nil : Assigns [] []
  | skip {line : List Char} {lines : List (List Char)} {es : List (String × String)} :
      line = [] ∨ isComment line = true → Assigns lines es → Assigns (line :: lines) es
  | assign {e : String × String} {lines : List (List Char)} {es : List (String × String)} :
      IsValid e → Assigns lines es → Assigns ((e.1.toList ++ '=' :: e.2.toList) :: lines) (e :: es)

variable {values checked es : List (String × String)} {lines : List (List Char)}

theorem validateSecretName_ok {name : List Char} :
    validateSecretName name = .ok () ↔ isEnvName name = true := by
  unfold validateSecretName
  split <;> simp_all

theorem isNameChar_of_start {c : Char} (h : isNameStart c = true) : isNameChar c = true := by
  simp only [isNameStart, isNameChar, Char.isAlphanum, Bool.or_eq_true] at h ⊢
  exact h.imp_left .inl

theorem isNameChar_of_mem {name : List Char} (h : isEnvName name = true) {c : Char}
    (hc : c ∈ name) : isNameChar c = true := by
  cases name with
  | nil => simp at hc
  | cons d ds =>
      simp only [isEnvName, Bool.and_eq_true, List.all_eq_true] at h
      rcases List.mem_cons.1 hc with rfl | hc
      · exact isNameChar_of_start h.1
      · exact h.2 c hc

theorem IsValid.notMem {e : String × String} (h : IsValid e) {c : Char}
    (hc : isNameChar c = false) : c ∉ e.1.toList := by
  intro hmem
  rw [isNameChar_of_mem (validateSecretName_ok.1 h.1) hmem] at hc
  simp at hc

theorem toNat_of_nameStart {c : Char} (h : isNameStart c = true) :
    65 ≤ c.toNat ∧ c.toNat ≤ 122 := by
  have hupper : c.isUpper = decide (c.val ≥ 'A'.val ∧ c.val ≤ 'Z'.val) := rfl
  have hlower : c.isLower = (c.val ≥ 'a'.val && c.val ≤ 'z'.val) := rfl
  have halpha : c.isAlpha = (c.isUpper || c.isLower) := rfl
  simp only [isNameStart, halpha, hupper, hlower, Bool.or_eq_true, Bool.and_eq_true,
    decide_eq_true_eq, ge_iff_le, UInt32.le_iff_toNat_le] at h
  rcases h with (⟨hlow, hhigh⟩ | ⟨hlow, hhigh⟩) | rfl
  · exact ⟨hlow, hhigh.trans (by decide)⟩
  · exact ⟨le_trans (by decide) hlow, hhigh⟩
  · decide

theorem isComment_assignment {e : String × String} (h : IsValid e) :
    isComment (e.1.toList ++ '=' :: e.2.toList) = false := by
  have hname := validateSecretName_ok.1 h.1
  cases hchars : e.1.toList with
  | nil => simp [hchars, isEnvName] at hname
  | cons c cs =>
      rw [hchars, isEnvName, Bool.and_eq_true] at hname
      have hrange := toNat_of_nameStart hname.1
      have hspace : isSpace c = false := by
        simp only [isSpace]
        simp
        omega
      have hhash : c ≠ '#' := by
        rintro rfl
        exact absurd hrange.1 (by decide)
      simp [isComment, hspace, List.isPrefixOf, hhash.symm]

theorem prefix_of_notMem {c : Char} {cs ds es : List Char} (h : c ∉ cs)
    (hbegins : cs <+: ds ++ c :: es) : cs <+: ds := by
  induction cs generalizing ds with
  | nil => exact List.nil_prefix
  | cons d cs ih =>
      obtain ⟨hd, hcs⟩ := not_or.1 (fun hor => h (List.mem_cons.2 hor))
      cases ds with
      | nil => exact absurd (List.cons_prefix_cons.1 hbegins).1.symm hd
      | cons d' ds =>
          obtain ⟨rfl, hrest⟩ := List.cons_prefix_cons.1 hbegins
          exact List.cons_prefix_cons.2 ⟨rfl, ih hcs hrest⟩

theorem not_export_assignment {e : String × String} (h : IsValid e) :
    "export ".toList.isPrefixOf (e.1.toList ++ '=' :: e.2.toList) = false := by
  rw [← Bool.not_eq_true, List.isPrefixOf_iff_prefix]
  intro hprefix
  have hname := prefix_of_notMem (by decide) hprefix
  exact h.notMem (c := ' ') (by decide) (hname.subset (by decide))

theorem assignment_eq {name value : List Char} (h : '=' ∉ name) :
    assignment (name ++ '=' :: value) = (name, value) := by
  have hall : ∀ c ∈ name, decide (c ≠ '=') = true := by
    intro c hc
    simpa using fun heq : c = '=' => h (heq ▸ hc)
  simp only [assignment, List.takeWhile_append_of_pos hall, List.dropWhile_append_of_pos hall]
  simp

theorem eq_assignment {line : List Char} (h : '=' ∈ line) :
    line = (assignment line).1 ++ '=' :: (assignment line).2 := by
  induction line with
  | nil => simp at h
  | cons c cs ih =>
      by_cases hc : c = '='
      · simp [assignment, hc]
      · have hcs := ih ((List.mem_cons.1 h).resolve_left (Ne.symm hc))
        simp only [assignment, List.takeWhile_cons, List.dropWhile_cons, hc, ne_eq, not_false_eq_true,
          decide_true, if_true, List.cons_append]
        exact congrArg (c :: ·) hcs

theorem validateSecret_ok {n : ℕ} {name value : List Char} :
    validateSecret n name value = .ok () ↔
      validateSecretName name = .ok () ∧ validateSecretValue value = .ok () := by
  unfold validateSecret
  rcases validateSecretName name with e | u
  · simp [bind, Except.bind]
  · rcases validateSecretValue value with e | u <;> simp [bind, Except.bind]

theorem setKey_fresh {α : Type} {key : String} {v : α} {es : List (String × α)}
    (h : key ∉ es.map Prod.fst) : setKey key v es = es ++ [(key, v)] :=
  setKey_append_ne key v fun _ he heq => h (heq ▸ List.mem_map_of_mem he)

theorem Assigns.cons {line : List Char} (h : Assigns (line :: lines) es)
    (hline : ¬ (line = [] ∨ isComment line = true)) :
    ∃ e rest, es = e :: rest ∧ line = e.1.toList ++ '=' :: e.2.toList ∧ IsValid e ∧
      Assigns lines rest := by
  cases h with
  | skip hskip _ => exact absurd hskip hline
  | @assign e _ rest hvalid hrest => exact ⟨e, rest, rfl, rfl, hvalid, hrest⟩

theorem not_skipped {e : String × String} (h : IsValid e) :
    ¬ (e.1.toList ++ '=' :: e.2.toList = [] ∨
      isComment (e.1.toList ++ '=' :: e.2.toList) = true) := by
  simp [isComment_assignment h]

/-- A line that is an assignment, read with the lines after it. -/
theorem parseLines_assignment {n : ℕ} {line : List Char} {result : List (String × String)}
    (hskip : ¬ (line = [] ∨ isComment line = true)) (hexport : "export ".toList.isPrefixOf line = false)
    (hequals : '=' ∈ line) :
    parseLines n (line :: lines) values = .ok result ↔
      ∃ e, line = e.1.toList ++ '=' :: e.2.toList ∧ IsValid e ∧ e.1 ∉ values.map Prod.fst ∧
        parseLines (n + 1) lines (values ++ [e]) = .ok result := by
  rw [parseLines, if_neg (by simpa using hskip), if_neg (by rw [hexport]; simp [hequals])]
  dsimp only
  rw [bind_eq_ok]
  constructor
  · rintro ⟨_, hvalid, h⟩
    split at h
    · simp at h
    · rename_i hfresh
      have hmem : String.ofList (assignment line).1 ∉ values.map Prod.fst :=
        fun hmem => hfresh (lookup_isSome.2 hmem)
      refine ⟨(String.ofList (assignment line).1, String.ofList (assignment line).2), ?_, ?_, hmem, ?_⟩
      · simpa using eq_assignment hequals
      · simpa [IsValid] using validateSecret_ok.1 hvalid
      · rwa [setKey_fresh hmem] at h
  · rintro ⟨e, rfl, hvalid, hfresh, h⟩
    rw [assignment_eq (hvalid.notMem (by decide))]
    refine ⟨(), validateSecret_ok.2 hvalid, ?_⟩
    simp only [String.ofList_toList]
    rw [if_neg fun hsome => hfresh (lookup_isSome.1 hsome), setKey_fresh hfresh]
    exact h

theorem parseLines_ok {n : ℕ} {result : List (String × String)} :
    parseLines n lines values = .ok result ↔
      ∃ es, Assigns lines es ∧ (∀ e ∈ es, e.1 ∉ values.map Prod.fst) ∧ (es.map Prod.fst).Nodup ∧
        result = values ++ es := by
  induction lines generalizing n values with
  | nil =>
      constructor
      · intro h
        exact ⟨[], .nil, by simp, by simp, by simpa using (Except.ok.inj h).symm⟩
      · rintro ⟨es, hes, -, -, rfl⟩
        cases hes
        simp [parseLines]
  | cons line lines ih =>
      by_cases hskip : line = [] ∨ isComment line = true
      · rw [parseLines, if_pos (by simpa using hskip), ih]
        constructor
        · rintro ⟨es, hes, hrest⟩
          exact ⟨es, .skip hskip hes, hrest⟩
        · rintro ⟨es, hes, hrest⟩
          cases hes with
          | skip _ hes => exact ⟨es, hes, hrest⟩
          | assign hvalid _ => exact absurd hskip (not_skipped hvalid)
      · by_cases hform : "export ".toList.isPrefixOf line = false ∧ '=' ∈ line
        · rw [parseLines_assignment hskip hform.1 hform.2]
          constructor
          · rintro ⟨e, rfl, hvalid, hfresh, h⟩
            obtain ⟨es, hes, hapart, honce, rfl⟩ := ih.1 h
            simp only [List.map_append, List.map_cons, List.map_nil, List.mem_append,
              List.mem_singleton, not_or] at hapart
            refine ⟨e :: es, .assign hvalid hes, ?_, ?_, by simp⟩
            · exact List.forall_mem_cons.2 ⟨hfresh, fun f hf => (hapart f hf).1⟩
            · refine List.nodup_cons.2 ⟨fun hmem => ?_, honce⟩
              obtain ⟨f, hf, heq⟩ := List.mem_map.1 hmem
              exact (hapart f hf).2 heq
          · rintro ⟨es, hes, hapart, honce, rfl⟩
            obtain ⟨e, rest, rfl, rfl, hvalid, hrest⟩ := hes.cons hskip
            obtain ⟨hfresh, hapart⟩ := List.forall_mem_cons.1 hapart
            obtain ⟨hnot, honce⟩ := List.nodup_cons.1 honce
            refine ⟨e, rfl, hvalid, hfresh, ih.2 ⟨rest, hrest, fun f hf => ?_, honce, by simp⟩⟩
            simp only [List.map_append, List.map_cons, List.map_nil, List.mem_append,
              List.mem_singleton, not_or]
            exact ⟨hapart f hf, fun heq => hnot (heq ▸ List.mem_map_of_mem hf)⟩
        · have hbad : ("export ".toList.isPrefixOf line || !line.contains '=') = true := by
            by_contra hgood
            simp only [Bool.or_eq_true, Bool.not_eq_true', not_or, Bool.not_eq_true,
              Bool.not_eq_false, List.contains_iff_mem] at hgood
            exact hform hgood
          rw [parseLines, if_neg (by simpa using hskip), if_pos hbad]
          constructor
          · simp
          · rintro ⟨es, hes, -⟩
            obtain ⟨e, rest, -, rfl, hvalid, -⟩ := hes.cons hskip
            exact absurd ⟨not_export_assignment hvalid, by simp⟩ hform

theorem fromUTF8_iff {payload : ByteArray} {text : String} :
    String.fromUTF8? payload = some text ↔ payload = text.toUTF8 := by
  unfold String.fromUTF8?
  constructor
  · intro h
    split at h
    · obtain rfl := Option.some.inj h
      rfl
    · simp at h
  · rintro rfl
    exact dif_pos text.isValidUTF8

/-- A payload is accepted for what its lines assign. -/
structure Accepted (payload : ByteArray) (text : String) (values : List (String × String)) : Prop where
  size : payload.size ≤ maxSecretsFileSize
  decoded : payload = text.toUTF8
  noNul : '\x00' ∉ text.toList
  noReturn : '\r' ∉ text.toList
  assigns : Assigns (linesOf text) values
  once : (values.map Prod.fst).Nodup

theorem parseSecrets_ok {payload : ByteArray} :
    parseSecrets payload = .ok values ↔ ∃ text, Accepted payload text values := by
  constructor
  · intro h
    unfold parseSecrets at h
    split at h
    · simp at h
    · rename_i hsize
      split at h
      · simp at h
      · rename_i text htext
        split at h
        · simp at h
        · rename_i hnul
          split at h
          · simp at h
          · rename_i hreturn
            obtain ⟨es, hes, -, honce, rfl⟩ := parseLines_ok.1 h
            exact ⟨text, not_lt.1 hsize, fromUTF8_iff.1 htext, hnul, hreturn, hes, honce⟩
  · rintro ⟨text, h⟩
    unfold parseSecrets
    rw [if_neg (not_lt.2 h.size), fromUTF8_iff.2 h.decoded]
    dsimp only
    rw [if_neg h.noNul, if_neg h.noReturn]
    exact parseLines_ok.2 ⟨values, h.assigns, by simp, h.once, rfl⟩

theorem checkSecrets_ok {result : List (String × String)} :
    checkSecrets values checked = .ok result ↔
      (∀ e ∈ values, IsValid e) ∧ (∀ e ∈ values, e.1 ∉ checked.map Prod.fst) ∧
        (values.map Prod.fst).Nodup ∧ result = checked ++ values := by
  induction values generalizing checked with
  | nil => simp [checkSecrets, eq_comm]
  | cons e values ih =>
      obtain ⟨name, value⟩ := e
      rw [checkSecrets]
      constructor
      · intro h
        obtain ⟨_, hname, h⟩ := bind_eq_ok.1 h
        obtain ⟨_, hvalue, h⟩ := bind_eq_ok.1 h
        split at h
        · simp at h
        · rename_i hfresh
          have hmem : name ∉ checked.map Prod.fst := fun hmem => hfresh (lookup_isSome.2 hmem)
          rw [setKey_fresh hmem] at h
          obtain ⟨hvalid, hapart, honce, rfl⟩ := ih.1 h
          simp only [List.map_append, List.map_cons, List.map_nil, List.mem_append,
            List.mem_singleton, not_or] at hapart
          refine ⟨List.forall_mem_cons.2 ⟨⟨hname, hvalue⟩, hvalid⟩,
            List.forall_mem_cons.2 ⟨hmem, fun f hf => (hapart f hf).1⟩,
            List.nodup_cons.2 ⟨fun hin => ?_, honce⟩, by simp⟩
          obtain ⟨f, hf, heq⟩ := List.mem_map.1 hin
          exact (hapart f hf).2 heq
      · rintro ⟨hvalid, hapart, honce, rfl⟩
        obtain ⟨⟨hname, hvalue⟩, hvalid⟩ := List.forall_mem_cons.1 hvalid
        obtain ⟨hfresh, hapart⟩ := List.forall_mem_cons.1 hapart
        obtain ⟨hnot, honce⟩ := List.nodup_cons.1 honce
        refine bind_eq_ok.2 ⟨(), hname, bind_eq_ok.2 ⟨(), hvalue, ?_⟩⟩
        rw [if_neg fun hsome => hfresh (lookup_isSome.1 hsome), setKey_fresh hfresh]
        refine ih.2 ⟨hvalid, fun f hf => ?_, honce, by simp⟩
        simp only [List.map_append, List.map_cons, List.map_nil, List.mem_append,
          List.mem_singleton, not_or]
        have hin : f.1 ∈ values.map Prod.fst := List.mem_map_of_mem hf
        exact ⟨hapart f hf, fun heq => hnot (heq ▸ hin)⟩

theorem serialize_ok {payload : ByteArray} : serialize values = .ok payload ↔
    (∀ e ∈ values, IsValid e) ∧ (values.map Prod.fst).Nodup ∧ payload = (textOf values).toUTF8 ∧
      payload.size ≤ maxSecretsFileSize := by
  unfold serialize
  rw [bind_eq_ok]
  constructor
  · rintro ⟨checked, hchecked, h⟩
    obtain ⟨hvalid, -, honce, rfl⟩ := checkSecrets_ok.1 hchecked
    dsimp only at h
    split at h
    · simp at h
    · rename_i hsize
      obtain rfl := Except.ok.inj h
      exact ⟨hvalid, honce, rfl, not_lt.1 hsize⟩
  · rintro ⟨hvalid, honce, rfl, hsize⟩
    exact ⟨values, checkSecrets_ok.2 ⟨hvalid, by simp, honce, rfl⟩, if_neg (not_lt.2 hsize)⟩

end SecretsFile

end Polaris
