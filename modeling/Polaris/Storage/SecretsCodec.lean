import Mathlib.Data.List.Infix
import Polaris.Storage.Secrets

namespace Polaris
open PyJson SortedDict

namespace SecretsFile
variable {values es : List (String × String)} {lines : List (List Char)}

/-! The text that is written is read as it was. -/

def unended (e : String × String) : List Char := e.1.toList ++ '=' :: e.2.toList

theorem validateSecretValue_ok {value : List Char} (h : validateSecretValue value = .ok ()) :
    '\x00' ∉ value ∧ '\r' ∉ value ∧ '\n' ∉ value := by
  unfold validateSecretValue at h
  split at h
  · simp at h
  · rename_i hnone
    push Not at hnone
    exact hnone

theorem IsValid.notMem_unended {e : String × String} (h : IsValid e) {c : Char}
    (hc : c = '\x00' ∨ c = '\r' ∨ c = '\n') : c ∉ unended e := by
  obtain ⟨hnul, hreturn, hfeed⟩ := validateSecretValue_ok h.2
  simp only [unended, List.mem_append, List.mem_cons, not_or]
  refine ⟨h.notMem ?_, ?_, ?_⟩
  · rcases hc with rfl | rfl | rfl <;> decide
  · rcases hc with rfl | rfl | rfl <;> decide
  · rcases hc with rfl | rfl | rfl <;> assumption

theorem splitOn_lines (h : ∀ e ∈ es, IsValid e) :
    (es.flatMap lineText).splitOn '\n' = es.map unended ++ [[]] := by
  induction es with
  | nil => rfl
  | cons e es ih =>
      obtain ⟨he, hes⟩ := List.forall_mem_cons.1 h
      have hline : lineText e ++ es.flatMap lineText = unended e ++ '\n' :: es.flatMap lineText := by
        simp [lineText, unended]
      rw [List.flatMap_cons, hline,
        List.splitOn_append_cons_self_of_not_mem (he.notMem_unended (.inr (.inr rfl))), ih hes]
      rfl

theorem assigns_lines (h : ∀ e ∈ es, IsValid e) : Assigns (es.map unended ++ [[]]) es := by
  induction es with
  | nil => exact .skip (.inl rfl) .nil
  | cons e es ih =>
      obtain ⟨he, hes⟩ := List.forall_mem_cons.1 h
      exact .assign he (ih hes)

theorem notMem_textOf (h : ∀ e ∈ values, IsValid e) {c : Char} (hc : c = '\x00' ∨ c = '\r') :
    c ∉ (textOf values).toList := by
  rw [textOf, String.toList_ofList]
  intro hmem
  obtain ⟨e, he, hce⟩ := List.mem_flatMap.1 hmem
  have hvalid := h e (PyVal.mem_sortKeys he)
  have hline : c ∈ unended e ∨ c = '\n' := by
    simpa [lineText, unended, or_assoc] using hce
  rcases hline with hline | rfl
  · exact hvalid.notMem_unended (by tauto) hline
  · rcases hc with hc | hc <;> exact absurd hc (by decide)

theorem accepted_textOf (hvalid : ∀ e ∈ values, IsValid e) (honce : (values.map Prod.fst).Nodup)
    (hsize : (textOf values).toUTF8.size ≤ maxSecretsFileSize) :
    Accepted (textOf values).toUTF8 (textOf values) (sortKeys values) := by
  have hsorted : ∀ e ∈ sortKeys values, IsValid e := fun e he => hvalid e (PyVal.mem_sortKeys he)
  refine ⟨hsize, rfl, notMem_textOf hvalid (.inl rfl), notMem_textOf hvalid (.inr rfl), ?_, ?_⟩
  · rw [linesOf, textOf, String.toList_ofList, splitOn_lines hsorted]
    exact assigns_lines hsorted
  · exact ((sortKeys_perm honce).map Prod.fst).nodup_iff.2 honce

theorem parseSecrets_serialize {payload : ByteArray} (h : serialize values = .ok payload) :
    parseSecrets payload = .ok (sortKeys values) := by
  obtain ⟨hvalid, honce, rfl, hsize⟩ := serialize_ok.1 h
  exact parseSecrets_ok.2 ⟨textOf values, accepted_textOf hvalid honce hsize⟩

theorem lookup_sorted (honce : (values.map Prod.fst).Nodup) (name : String) :
    lookup name (sortKeys values) = lookup name values :=
  (lookup_sortKeys name values).trans (lastOf_of_nodup name honce)

theorem serialize_sortKeys {payload : ByteArray} (h : serialize values = .ok payload) :
    serialize (sortKeys values) = .ok payload := by
  obtain ⟨hvalid, honce, hpayload, hsize⟩ := serialize_ok.1 h
  have htext : textOf (sortKeys values) = textOf values := by
    rw [textOf, textOf, sortKeys_of_sorted (sortKeys_sorted values)]
  refine serialize_ok.2 ⟨fun e he => hvalid e (PyVal.mem_sortKeys he), ?_, ?_, hsize⟩
  · exact ((sortKeys_perm honce).map Prod.fst).nodup_iff.2 honce
  · rw [htext]
    exact hpayload

theorem Assigns.valid (h : Assigns lines es) : ∀ e ∈ es, IsValid e := by
  induction h with
  | nil => simp
  | skip _ _ ih => exact ih
  | assign hvalid _ ih => exact List.forall_mem_cons.2 ⟨hvalid, ih⟩

/-! What is written is as long as the lines it was read from, less those that assign nothing. -/

def assignedSize (es : List (String × String)) : ℕ :=
  (es.map fun e => byteSize (unended e) + 1).sum

@[simp] theorem assignedSize_cons (e : String × String) :
    assignedSize (e :: es) = byteSize (unended e) + 1 + assignedSize es := by
  simp [assignedSize]

@[simp] theorem linesSize_cons (line : List Char) :
    linesSize (line :: lines) = byteSize line + 1 + linesSize lines := by
  simp [linesSize]

theorem byteSize_lines (es : List (String × String)) :
    byteSize (es.flatMap lineText) = assignedSize es := by
  induction es with
  | nil => rfl
  | cons e es ih =>
      have hfeed : ('\n').utf8Size = 1 := rfl
      rw [List.flatMap_cons, byteSize_append, ih, assignedSize_cons]
      simp only [lineText, unended, byteSize_append, byteSize_cons, byteSize_nil, hfeed]

theorem size_textOf (honce : (values.map Prod.fst).Nodup) :
    (textOf values).toUTF8.size = assignedSize values := by
  rw [size_toUTF8, textOf, String.toList_ofList, byteSize_lines]
  exact ((sortKeys_perm honce).map _).sum_eq

def Skipped (line : List Char) : Prop := line = [] ∨ isComment line = true

instance : DecidablePred Skipped := fun _ => inferInstanceAs (Decidable (_ ∨ _))

theorem Assigns.size_le (h : Assigns lines es) : assignedSize es ≤ linesSize lines := by
  induction h with
  | nil => exact le_refl _
  | skip _ _ ih =>
      rw [linesSize_cons]
      omega
  | assign _ _ ih =>
      rw [linesSize_cons, assignedSize_cons]
      exact Nat.add_le_add_left ih _

theorem Assigns.size_eq (h : Assigns lines es) :
    assignedSize es = linesSize lines ↔ ∀ line ∈ lines, ¬ Skipped line := by
  induction h with
  | nil => simp [assignedSize, linesSize]
  | @skip line lines es hskip hrest _ =>
      have hle := hrest.size_le
      constructor
      · intro heq
        rw [linesSize_cons] at heq
        omega
      · intro hall
        exact absurd hskip (hall line (by simp))
  | @assign e lines es hvalid _ ih =>
      rw [assignedSize_cons, linesSize_cons, List.forall_mem_cons, ← ih]
      have hline : ¬ Skipped (e.1.toList ++ '=' :: e.2.toList) := not_skipped hvalid
      simp [unended, hline]

/-- Every byte the limit allows is used, and every line assigns. -/
def FillsLimit (payload : ByteArray) : Prop :=
  payload.size = maxSecretsFileSize ∧
    ∃ text, String.fromUTF8? payload = some text ∧ ∀ line ∈ linesOf text, ¬ Skipped line

theorem Accepted.serialize_iff {payload : ByteArray} {text : String}
    (h : Accepted payload text values) :
    (∃ written, serialize values = .ok written) ↔ ¬ FillsLimit payload := by
  have hsize : linesSize (linesOf text) = payload.size + 1 := by
    rw [h.decoded, size_toUTF8]
    exact linesSize_splitOn text.toList
  have hle := h.assigns.size_le
  have hlimit := h.size
  have hwritten : (∃ written, serialize values = .ok written) ↔
      assignedSize values ≤ maxSecretsFileSize := by
    rw [← size_textOf h.once]
    constructor
    · rintro ⟨written, hok⟩
      obtain ⟨-, -, rfl, hfits⟩ := serialize_ok.1 hok
      exact hfits
    · intro hfits
      exact ⟨_, serialize_ok.2 ⟨h.assigns.valid, h.once, rfl, hfits⟩⟩
  rw [hwritten, ← not_lt, not_iff_not]
  constructor
  · intro hover
    have heq : assignedSize values = linesSize (linesOf text) := by omega
    refine ⟨by omega, text, fromUTF8_iff.2 h.decoded, h.assigns.size_eq.1 heq⟩
  · rintro ⟨hfull, text', htext, hall⟩
    obtain rfl : text = text' := by
      rw [fromUTF8_iff.2 h.decoded] at htext
      exact Option.some.inj htext
    have heq := h.assigns.size_eq.2 hall
    omega

/-! Every failure is the file's own. -/

def isSecretsError (e : PyError) : Prop := e.cls = .other "SecretsFileError"

theorem validateSecret_error {n : ℕ} {name value : List Char} {e : PyError}
    (h : validateSecret n name value = .error e) : isSecretsError e := by
  unfold validateSecret at h
  split at h
  · simp at h
  · obtain rfl := Except.error.inj h
    rfl

theorem parseLines_error {n : ℕ} {e : PyError} (h : parseLines n lines values = .error e) :
    isSecretsError e := by
  induction lines generalizing n values with
  | nil => simp [parseLines] at h
  | cons line lines ih =>
      rw [parseLines] at h
      split at h
      · exact ih h
      · split at h
        · obtain rfl := Except.error.inj h
          rfl
        · dsimp only at h
          rcases bind_eq_error.1 h with h | ⟨_, -, h⟩
          · exact validateSecret_error h
          · split at h
            · obtain rfl := Except.error.inj h
              rfl
            · exact ih h

theorem parseSecrets_error {payload : ByteArray} {e : PyError}
    (h : parseSecrets payload = .error e) : isSecretsError e := by
  unfold parseSecrets at h
  split at h
  · obtain rfl := Except.error.inj h
    rfl
  · split at h
    · obtain rfl := Except.error.inj h
      rfl
    · split at h
      · obtain rfl := Except.error.inj h
        rfl
      · split at h
        · obtain rfl := Except.error.inj h
          rfl
        · exact parseLines_error h

/-! What a change of the file leaves. -/

variable {file after : Option ByteArray}

def contents (file : Option ByteArray) : Except PyError (List (String × String)) := (read file).1

theorem read_run (file : Option ByteArray) : read file = (contents file, file) := by
  cases file <;> rfl

theorem contents_nodup (h : contents file = .ok values) : (values.map Prod.fst).Nodup := by
  cases file with
  | none =>
      obtain rfl : [] = values := Except.ok.inj h
      simp
  | some payload =>
      obtain ⟨text, haccepted⟩ := parseSecrets_ok.1 h
      exact haccepted.once

theorem write_ok {u : Unit} (h : write values file = (.ok u, after)) :
    contents after = .ok (sortKeys values) ∧
      ∀ name, lookup name (sortKeys values) = lookup name values := by
  obtain ⟨payload, _, hlift, hwrite⟩ := Txn.bind_ok.1 h
  obtain ⟨hpayload, rfl⟩ := Txn.lift_ok.1 hlift
  obtain rfl := Txn.write_ok.1 hwrite
  obtain ⟨-, honce, -, -⟩ := serialize_ok.1 hpayload
  exact ⟨parseSecrets_serialize hpayload, lookup_sorted honce⟩

theorem write_error {e : PyError} (h : write values file = (.error e, after)) : after = file := by
  rcases Txn.bind_error.1 h with h | ⟨payload, _, -, h⟩
  · exact (Txn.lift_readOnly _).state h
  · simp [Txn.write] at h

def SameElsewhere (name : String) (before after : List (String × String)) : Prop :=
  ∀ other, other ≠ name → lookup other after = lookup other before

theorem lookup_removed (name other : String) (values : List (String × String)) :
    lookup other (values.filter fun e => e.1 ≠ name) =
      if other = name then none else lookup other values := by
  induction values with
  | nil => simp [lookup]
  | cons e values ih =>
      obtain ⟨key, value⟩ := e
      by_cases hkey : key = name
      · rw [List.filter_cons_of_neg (by simp [hkey]), ih]
        by_cases hother : other = name
        · simp [hother]
        · simp [hother, lookup, hkey]
      · rw [List.filter_cons_of_pos (by simpa using hkey), lookup, ih]
        by_cases hother : other = name
        · have hne : other ≠ key := fun heq => hkey (heq.symm.trans hother)
          simp [hother, Ne.symm hkey]
        · simp [hother, lookup]

theorem set_ok {name value : String} {u : Unit} (hread : contents file = .ok values)
    (h : set name value file = (.ok u, after)) :
    ∃ values', contents after = .ok values' ∧ lookup name values' = some value ∧
      SameElsewhere name values values' := by
  obtain ⟨_, _, hname, h⟩ := Txn.bind_ok.1 h
  obtain ⟨-, rfl⟩ := Txn.lift_ok.1 hname
  obtain ⟨_, _, hvalue, h⟩ := Txn.bind_ok.1 h
  obtain ⟨-, rfl⟩ := Txn.lift_ok.1 hvalue
  rw [Txn.bind_of_ok ((read_run file).trans (by rw [hread]))] at h
  obtain ⟨hafter, hsame⟩ := write_ok h
  refine ⟨_, hafter, ?_, ?_⟩
  · rw [hsame, lookup_setKey, if_pos rfl]
  · intro other hother
    rw [hsame, lookup_setKey, if_neg hother]

theorem set_error {name value : String} {e : PyError}
    (h : set name value file = (.error e, after)) : after = file := by
  rcases Txn.bind_error.1 h with h | ⟨_, _, hname, h⟩
  · exact (Txn.lift_readOnly _).state h
  · obtain ⟨-, rfl⟩ := Txn.lift_ok.1 hname
    rcases Txn.bind_error.1 h with h | ⟨_, _, hvalue, h⟩
    · exact (Txn.lift_readOnly _).state h
    · obtain ⟨-, rfl⟩ := Txn.lift_ok.1 hvalue
      rcases Txn.bind_error.1 h with h | ⟨_, _, hread, h⟩
      · exact (congrArg Prod.snd ((read_run file).symm.trans h)).symm
      · obtain rfl := congrArg Prod.snd ((read_run file).symm.trans hread)
        exact write_error h

theorem remove_ok {name : String} {found : Bool} (hread : contents file = .ok values)
    (h : remove name file = (.ok found, after)) :
    found = (lookup name values).isSome ∧ ∃ values', contents after = .ok values' ∧
      lookup name values' = none ∧ SameElsewhere name values values' := by
  obtain ⟨_, _, hname, h⟩ := Txn.bind_ok.1 h
  obtain ⟨-, rfl⟩ := Txn.lift_ok.1 hname
  rw [Txn.bind_of_ok ((read_run file).trans (by rw [hread]))] at h
  split at h
  · rename_i hnone
    obtain ⟨rfl, rfl⟩ := Txn.pure_ok.1 h
    have habsent : lookup name values = none := by simpa using hnone
    exact ⟨by rw [habsent]; rfl, values, hread, habsent, fun _ _ => rfl⟩
  · rename_i hsome
    obtain ⟨_, _, hwrite, h⟩ := Txn.bind_ok.1 h
    obtain ⟨rfl, rfl⟩ := Txn.pure_ok.1 h
    obtain ⟨hafter, hsame⟩ := write_ok hwrite
    refine ⟨by simpa [Option.isSome_iff_ne_none] using hsome, _, hafter, ?_, ?_⟩
    · rw [hsame, lookup_removed, if_pos rfl]
    · intro other hother
      rw [hsame, lookup_removed, if_neg hother]

theorem remove_error {name : String} {e : PyError}
    (h : remove name file = (.error e, after)) : after = file := by
  rcases Txn.bind_error.1 h with h | ⟨_, _, hname, h⟩
  · exact (Txn.lift_readOnly _).state h
  · obtain ⟨-, rfl⟩ := Txn.lift_ok.1 hname
    rcases Txn.bind_error.1 h with h | ⟨values, _, hread, h⟩
    · exact (congrArg Prod.snd ((read_run file).symm.trans h)).symm
    · obtain rfl := congrArg Prod.snd ((read_run file).symm.trans hread)
      split at h
      · simp [pure, Txn.pure] at h
      · rcases Txn.bind_error.1 h with h | ⟨_, _, _, h⟩
        · exact write_error h
        · simp [pure, Txn.pure] at h

/-! The codec as a whole. -/

/-- What was read is written again, and what is written then is read and written the same. -/
def Reserialises (values : List (String × String)) : Prop :=
  ∃ written values', serialize values = .ok written ∧ parseSecrets written = .ok values' ∧
    (∀ name, lookup name values' = lookup name values) ∧ serialize values' = .ok written

theorem reserialises_iff : Reserialises values ↔ ∃ written, serialize values = .ok written := by
  constructor
  · rintro ⟨written, _, hok, -⟩
    exact ⟨written, hok⟩
  · rintro ⟨written, hok⟩
    obtain ⟨-, honce, -⟩ := serialize_ok.1 hok
    exact ⟨written, _, hok, parseSecrets_serialize hok, lookup_sorted honce, serialize_sortKeys hok⟩

theorem codec_lossless_iff (payload : ByteArray) (file : Option ByteArray) (name : String) :
    (∀ values : List (String × String), (∀ e ∈ values, IsValid e) → (values.map Prod.fst).Nodup →
      (textOf values).toUTF8.size ≤ maxSecretsFileSize →
      ∃ payload values', serialize values = .ok payload ∧ parseSecrets payload = .ok values' ∧
        ∀ name, lookup name values' = lookup name values) ∧
    (∀ values, parseSecrets payload = .ok values →
      (Reserialises values ↔ ¬ FillsLimit payload)) ∧
    (∀ e, parseSecrets payload = .error e → isSecretsError e) ∧
    (∀ value after values r, contents file = .ok values →
      set name value file = (r, after) →
      (∀ e, r = .error e → after = file) ∧
      (∀ u, r = .ok u → ∃ values', contents after = .ok values' ∧
        lookup name values' = some value ∧ SameElsewhere name values values')) ∧
    (∀ after values r, contents file = .ok values →
      remove name file = (r, after) →
      (∀ e, r = .error e → after = file) ∧
      (∀ found, r = .ok found → found = (lookup name values).isSome ∧
        ∃ values', contents after = .ok values' ∧ lookup name values' = none ∧
          SameElsewhere name values values')) := by
  refine ⟨?_, ?_, ?_, ?_, ?_⟩
  · intro values hvalid honce hsize
    have hok := serialize_ok.2 ⟨hvalid, honce, rfl, hsize⟩
    exact ⟨_, _, hok, parseSecrets_serialize hok, lookup_sorted honce⟩
  · intro values h
    obtain ⟨text, haccepted⟩ := parseSecrets_ok.1 h
    exact reserialises_iff.trans haccepted.serialize_iff
  · intro e
    exact parseSecrets_error
  · intro value after values r hread h
    refine ⟨?_, ?_⟩
    · rintro e rfl
      exact set_error h
    · rintro u rfl
      exact set_ok hread h
  · intro after values r hread h
    refine ⟨?_, ?_⟩
    · rintro e rfl
      exact remove_error h
    · rintro found rfl
      exact remove_ok hread h

/-- `A=xx…x` without a line feed, as long as the limit allows -/
def fullLine : String × String := ("A", String.ofList (List.replicate 65534 'x'))

theorem fullLine_valid : IsValid fullLine := by
  have honly : ∀ c ∈ fullLine.2.toList, c = 'x' := by
    intro c hc
    rw [fullLine, String.toList_ofList] at hc
    exact List.eq_of_mem_replicate hc
  have hnot : ∀ c, c ≠ 'x' → c ∉ fullLine.2.toList := fun c hne hc => hne (honly c hc)
  refine ⟨validateSecretName_ok.2 (by decide), ?_⟩
  unfold validateSecretValue
  rw [if_neg (by simp [hnot]), if_neg]
  rw [Bool.or_eq_true, not_or]
  constructor
  · intro hwithin
    obtain ⟨tail, htail, hprefix⟩ := List.any_eq_true.1 hwithin
    have hmem : '$' ∈ tail := (List.isPrefixOf_iff_prefix.1 hprefix).subset (by simp)
    exact hnot '$' (by decide) (((List.mem_tails _ _).1 htail).subset hmem)
  · simpa using hnot '`' (by decide)

theorem fullLine_size : (String.ofList (unended fullLine)).toUTF8.size = maxSecretsFileSize := by
  have hvalue : byteSize (List.replicate 65534 'x') = 65534 := by
    rw [byteSize, List.map_replicate, List.sum_replicate]
    rfl
  have htext : fullLine.2.toList = List.replicate 65534 'x' := String.toList_ofList
  rw [size_toUTF8, String.toList_ofList, unended, byteSize_append, byteSize_cons, htext, hvalue]
  rfl

theorem fullLine_lines : linesOf (String.ofList (unended fullLine)) = [unended fullLine] := by
  rw [linesOf, String.toList_ofList]
  exact List.splitOn_eq_singleton (fullLine_valid.notMem_unended (.inr (.inr rfl)))

theorem fullLine_accepted : parseSecrets (String.ofList (unended fullLine)).toUTF8 = .ok [fullLine] := by
  refine parseSecrets_ok.2 ⟨_, fullLine_size.le, rfl, ?_, ?_, ?_, by simp⟩
  · rw [String.toList_ofList]
    exact fullLine_valid.notMem_unended (.inl rfl)
  · rw [String.toList_ofList]
    exact fullLine_valid.notMem_unended (.inr (.inl rfl))
  · rw [fullLine_lines]
    exact .assign fullLine_valid .nil

theorem not_codec_lossless : ¬ ∀ payload values, parseSecrets payload = .ok values →
    Reserialises values := by
  intro h
  obtain ⟨text, haccepted⟩ := parseSecrets_ok.1 fullLine_accepted
  refine haccepted.serialize_iff.1 (reserialises_iff.1 (h _ _ fullLine_accepted)) ?_
  refine ⟨fullLine_size, _, fromUTF8_iff.2 rfl, ?_⟩
  rw [fullLine_lines, List.forall_mem_singleton]
  exact not_skipped fullLine_valid

end SecretsFile

end Polaris
