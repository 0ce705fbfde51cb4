import Polaris.Scheduler.Cron

namespace Polaris

/-! Texts with separators. -/

section
variable {separator : Char} {cs before after : List Char} {parts : List (List Char)}

theorem partition_of_notMem (h : separator ∉ cs) : partition separator cs = (cs, none) := by
  have hdrop : cs.dropWhile (· ≠ separator) = [] := by
    rw [List.dropWhile_eq_nil_iff]
    intro c hc
    simpa using fun heq : c = separator => h (heq ▸ hc)
  rw [partition, hdrop]

theorem partition_append (h : separator ∉ before) :
    partition separator (before ++ separator :: after) = (before, some after) := by
  have hdrop : (before ++ separator :: after).dropWhile (· ≠ separator) = separator :: after := by
    induction before with
    | nil => simp
    | cons c before ih =>
        simp only [List.mem_cons, not_or] at h
        simpa [Ne.symm h.1] using ih h.2
  have htake : (before ++ separator :: after).takeWhile (· ≠ separator) = before := by
    clear hdrop
    induction before with
    | nil => simp
    | cons c before ih =>
        simp only [List.mem_cons, not_or] at h
        simpa [Ne.symm h.1] using ih h.2
  rw [partition, hdrop, htake]

/-- A text has no separator, or a first one. -/
theorem partition_cases (separator : Char) (cs : List Char) :
    (partition separator cs = (cs, none) ∧ separator ∉ cs) ∨ ∃ before after,
      partition separator cs = (before, some after) ∧ separator ∉ before ∧
        cs = before ++ separator :: after := by
  by_cases h : separator ∈ cs
  · obtain ⟨before, after, rfl, hbefore⟩ := List.eq_append_cons_of_mem h
    exact .inr ⟨before, after, partition_append hbefore, hbefore, rfl⟩
  · exact .inl ⟨partition_of_notMem h, h⟩

theorem splitOn_ne_nil (separator : Char) (cs : List Char) : splitOn separator cs ≠ [] := by
  cases cs with
  | nil => simp [splitOn]
  | cons c cs =>
      rw [splitOn]
      split
      · simp
      · split <;> simp

theorem splitOn_of_notMem (h : separator ∉ cs) : splitOn separator cs = [cs] := by
  induction cs with
  | nil => rfl
  | cons c cs ih =>
      simp only [List.mem_cons, not_or] at h
      rw [splitOn, if_neg (Ne.symm h.1), ih h.2]

theorem splitOn_append (h : separator ∉ before) :
    splitOn separator (before ++ separator :: after) = before :: splitOn separator after := by
  induction before with
  | nil => simp [splitOn]
  | cons c before ih =>
      simp only [List.mem_cons, not_or] at h
      rw [List.cons_append, splitOn, if_neg (Ne.symm h.1), ih h.2]

theorem splitOn_intercalate (hparts : parts ≠ []) (h : ∀ part ∈ parts, separator ∉ part) :
    splitOn separator ([separator].intercalate parts) = parts := by
  induction parts with
  | nil => exact absurd rfl hparts
  | cons part parts ih =>
      cases parts with
      | nil => simpa [List.intercalate] using splitOn_of_notMem (h part (List.mem_cons_self ..))
      | cons next parts =>
          have hrest := ih (by simp) fun p hp => h p (List.mem_cons_of_mem _ hp)
          rw [List.intercalate_cons_cons, List.append_assoc, List.singleton_append,
            splitOn_append (h part (List.mem_cons_self ..)), hrest]

theorem intercalate_splitOn (separator : Char) (cs : List Char) :
    [separator].intercalate (splitOn separator cs) = cs := by
  induction cs with
  | nil => simp [splitOn, List.intercalate]
  | cons c cs ih =>
      rw [splitOn]
      obtain ⟨part, parts, hsplit⟩ := List.exists_cons_of_ne_nil (splitOn_ne_nil separator cs)
      rw [hsplit] at ih ⊢
      split
      · rename_i hc
        rw [List.intercalate_cons_cons, ih, hc]
        rfl
      · cases parts with
        | nil => simpa [List.intercalate] using ih
        | cons next parts =>
            rw [List.intercalate_cons_cons] at ih ⊢
            simpa using ih

end

/-! Numbers. -/

namespace Cron

/-- The value of ASCII digits. -/
def numeralValue (cs : List Char) : ℕ := cs.foldl (fun n c => n * 10 + (c.toNat - 48)) 0

/-- A number of the grammar: ASCII digits, at least one. -/
def numeral (cs : List Char) : Option ℤ :=
  if cs ≠ [] ∧ cs.all Char.isDigit then some (numeralValue cs) else none

theorem numeral_eq_some {cs : List Char} {n : ℤ} :
    numeral cs = some n ↔ cs ≠ [] ∧ (∀ c ∈ cs, c.isDigit = true) ∧ n = numeralValue cs := by
  unfold numeral
  split
  · rename_i h
    simp only [List.all_eq_true] at h
    rw [Option.some.injEq, eq_comm]
    exact ⟨fun hn => ⟨h.1, h.2, hn⟩, fun h' => h'.2.2⟩
  · rename_i h
    simp only [List.all_eq_true] at h
    simp only [reduceCtorEq, false_iff]
    exact fun h' => h ⟨h'.1, h'.2.1⟩

theorem isDigit_bounds {c : Char} (h : c.isDigit = true) : 48 ≤ c.toNat ∧ c.toNat ≤ 57 := by
  simp only [Char.isDigit, Bool.and_eq_true, decide_eq_true_eq] at h
  exact ⟨UInt32.le_iff_toNat_le.1 h.1, UInt32.le_iff_toNat_le.1 h.2⟩

theorem isSpace_of_isDigit {c : Char} (h : c.isDigit = true) : isSpace c = false := by
  have hbounds := isDigit_bounds h
  rw [Bool.eq_false_iff]
  intro hs
  simp only [isSpace, Bool.or_eq_true, Bool.and_eq_true, decide_eq_true_eq] at hs
  omega

theorem ne_of_isDigit {c d : Char} (h : c.isDigit = true) (hd : d.isDigit = false) : c ≠ d := by
  rintro rfl
  exact absurd h (by simp [hd])

theorem decimalDigit_of_isDigit {c : Char} (h : c.isDigit = true) :
    decimalDigit c = some (c.toNat - 48) := by
  have hbounds := isDigit_bounds h
  have hfirst : (48 ≤ c.toNat && c.toNat < 48 + 10) = true := by
    simp only [Bool.and_eq_true, decide_eq_true_eq]
    omega
  have hfind : decimalZeros.find? (fun z => z ≤ c.toNat && c.toNat < z + 10) = some 48 :=
    List.find?_cons_of_pos hfirst
  rw [decimalDigit, hfind]
  rfl

theorem readDigits_of_isDigit {cs : List Char} (hne : cs ≠ []) (h : ∀ c ∈ cs, c.isDigit = true) :
    readDigits cs = some (cs.map fun c => c.toNat - 48) := by
  induction cs with
  | nil => exact absurd rfl hne
  | cons c cs ih =>
      have hc := decimalDigit_of_isDigit (h c (List.mem_cons_self ..))
      cases cs with
      | nil => simp [readDigits, hc]
      | cons d cs =>
          have hd : d ≠ '_' := ne_of_isDigit (h d (by simp)) rfl
          have hrest := ih (by simp) fun x hx => h x (List.mem_cons_of_mem _ hx)
          rw [readDigits]
          · simp [hc, hrest]
          · simp
          · simpa using hd

theorem pyStrip_of_isDigit {cs : List Char} (h : ∀ c ∈ cs, c.isDigit = true) :
    (pyStrip (String.ofList cs)).toList = cs := by
  have hdrop : cs.dropWhile isSpace = cs := by
    cases cs with
    | nil => rfl
    | cons c cs => simp [isSpace_of_isDigit (h c (List.mem_cons_self ..))]
  have hrdrop : cs.rdropWhile isSpace = cs := by
    rw [List.rdropWhile_eq_self_iff]
    intro hne
    rw [isSpace_of_isDigit (h _ (List.getLast_mem hne))]
    simp
  simp [pyStrip, hdrop, hrdrop]

/-- `int` reads a numeral, unless it is too long. -/
theorem pyInt_of_numeral {cs : List Char} {n : ℤ} (h : numeral cs = some n) :
    pyInt (String.ofList cs) = if cs.length ≤ maxStrDigits then some n else none := by
  obtain ⟨hne, hdigits, rfl⟩ := numeral_eq_some.1 h
  have hnatural : readNatural cs =
      if cs.length ≤ maxStrDigits then some (numeralValue cs) else none := by
    simp only [readNatural, readDigits_of_isDigit hne hdigits, Option.bind_eq_bind,
      Option.bind_some, List.length_map, guard]
    split
    · simp [numeralValue, List.foldl_map]
    · rfl
  have hread : pyInt (String.ofList cs) = (readNatural cs).map fun n : ℕ => (n : ℤ) := by
    rw [pyInt, pyStrip_of_isDigit hdigits]
    obtain ⟨c, cs, rfl⟩ := List.exists_cons_of_ne_nil hne
    have hc := hdigits c (List.mem_cons_self ..)
    have hminus : c ≠ '-' := ne_of_isDigit hc rfl
    have hplus : c ≠ '+' := ne_of_isDigit hc rfl
    split
    · rename_i heq
      exact absurd (List.cons.inj heq).1 hminus
    · rename_i heq
      exact absurd (List.cons.inj heq).1 hplus
    · cases readNatural (c :: cs) <;> rfl
  rw [hread, hnatural]
  split <;> rfl

/-! Parts. -/

/-- What stands before the slash of a part. -/
inductive Base where
  | all
  | number (text : List Char)
  | range (first last : List Char)
deriving DecidableEq

structure Form where
  base : Base
  step : Option (List Char)
deriving DecidableEq

def baseOf (base : List Char) : Base :=
  if base = ['*'] then .all
  else
    match partition '-' base with
    | (before, some after) => .range before after
    | (_, none) => .number base

def formOf (part : List Char) : Form := ⟨baseOf (partition '/' part).1, (partition '/' part).2⟩

def Base.numbers : Base → List (List Char)
  | .all => []
  | .number text => [text]
  | .range first last => [first, last]

def Form.numbers (form : Form) : List (List Char) := form.base.numbers ++ form.step.toList

section
variable (read : List Char → Option ℤ) (low high : ℤ)

/-- The first and the last value that a base stands for, once its numbers are read. -/
inductive BaseDenotes (stepped : Bool) : Base → ℤ → ℤ → Prop
  | all : BaseDenotes stepped .all low high
  | number {text : List Char} {n : ℤ} : read text = some n →
      BaseDenotes stepped (.number text) n (if stepped then high else n)
  | range {text text' : List Char} {n m : ℤ} : read text = some n → read text' = some m → n ≤ m →
      BaseDenotes stepped (.range text text') n m

structure Denotes (form : Form) (first last step : ℤ) : Prop where
  base : BaseDenotes read low high form.step.isSome form.base first last
  step : form.step.elim (step = 1) fun text => read text = some step ∧ 0 < step
  low_le : low ≤ first
  le_high : last ≤ high

end

def intOf (text : List Char) : Option ℤ := pyInt (String.ofList text)

theorem readInt_ok {message : String} {part text : List Char} {n : ℤ} :
    readInt message part text = .ok n ↔ intOf text = some n := by
  rw [readInt, intOf]
  cases pyInt (String.ofList text) <;> simp

theorem bounds_ok {part base : List Char} {slash : Bool} {low high first last : ℤ} :
    bounds part base slash low high = .ok (first, last) ↔
      BaseDenotes intOf low high slash (baseOf base) first last := by
  unfold bounds baseOf
  by_cases hall : base = ['*']
  · rw [if_pos hall, if_pos hall]
    constructor
    · intro h
      obtain ⟨rfl, rfl⟩ := Prod.mk.inj (Except.ok.inj h)
      exact .all
    · intro h
      cases h
      rfl
  · rw [if_neg hall, if_neg hall]
    rcases partition_cases '-' base with ⟨hp, hnot⟩ | ⟨before, after, hp, -, hbase⟩
    · rw [if_neg hnot, hp]
      simp only [bind_eq_ok, readInt_ok]
      constructor
      · rintro ⟨n, hn, h⟩
        obtain ⟨rfl, rfl⟩ := Prod.mk.inj (Except.ok.inj h)
        exact .number hn
      · intro h
        cases h with
        | number hn => exact ⟨_, hn, rfl⟩
    · rw [if_pos (by simp [hbase]), hp]
      simp only [bind_eq_ok, readInt_ok, Option.getD_some]
      constructor
      · rintro ⟨n, hn, m, hm, h⟩
        split at h
        · simp at h
        · rename_i hle
          obtain ⟨rfl, rfl⟩ := Prod.mk.inj (Except.ok.inj h)
          exact .range hn hm (not_lt.1 hle)
      · intro h
        cases h with
        | range hn hm hle => exact ⟨_, hn, _, hm, by rw [if_neg (not_lt.2 hle)]; rfl⟩

/-- What a part is read as; without a slash the step is one. -/
theorem parsePart_ok {low high : ℤ} {part : List Char} {values : List ℤ} :
    parsePart low high part = .ok values ↔ ∃ first last step,
      Denotes intOf low high (formOf part) first last step ∧ values = stepRange first last step := by
  unfold parsePart formOf
  rcases hp : partition '/' part with ⟨base, stepText⟩
  simp only [bind_eq_ok]
  have hstep (step : ℤ) : stepText.elim (.ok 1) (readInt "invalid cron step" part) = .ok step ∧
      0 < step ↔ stepText.elim (step = 1) fun text => intOf text = some step ∧ 0 < step := by
    cases stepText with
    | none =>
        simp only [Option.elim_none, Except.ok.injEq]
        constructor
        · rintro ⟨rfl, -⟩
          rfl
        · rintro rfl
          exact ⟨rfl, by norm_num⟩
    | some text => simp only [Option.elim_some, readInt_ok]
  constructor
  · rintro ⟨step, hread, h⟩
    split at h
    · simp at h
    · rename_i hpos
      obtain ⟨⟨first, last⟩, hbounds, h⟩ := bind_eq_ok.1 h
      dsimp only at h
      split at h
      · simp at h
      · rename_i hwithin
        refine ⟨first, last, step, ⟨bounds_ok.1 hbounds, (hstep step).1 ⟨hread, not_le.1 hpos⟩, ?_,
          ?_⟩, (Except.ok.inj h).symm⟩
        · exact not_lt.1 fun hlt => hwithin (.inl hlt)
        · exact not_lt.1 fun hlt => hwithin (.inr hlt)
  · rintro ⟨first, last, step, ⟨hbase, hstep', hlow, hhigh⟩, rfl⟩
    obtain ⟨hread, hpos⟩ := (hstep step).2 hstep'
    refine ⟨step, hread, ?_⟩
    rw [if_neg (not_le.2 hpos), bind_eq_ok]
    refine ⟨(first, last), bounds_ok.2 hbase, ?_⟩
    dsimp only
    rw [if_neg]
    · rfl
    · rintro (h | h) <;> omega

/-- The only exceptions are of the class `ValueError`. -/
def RaisesValueErrors {α : Type} (x : Except PyError α) : Prop :=
  ∀ e, x = .error e → e.cls = .valueError

theorem raises_ok {α : Type} (a : α) : RaisesValueErrors (.ok a : Except PyError α) := by
  intro e h
  simp at h

theorem raises_error {α : Type} {e : PyError} (he : e.cls = .valueError) :
    RaisesValueErrors (.error e : Except PyError α) := by
  intro e' h
  rw [← Except.error.inj h, he]

theorem raises_bind {α β : Type} {x : Except PyError α} {f : α → Except PyError β}
    (hx : RaisesValueErrors x) (hf : ∀ a, RaisesValueErrors (f a)) : RaisesValueErrors (x >>= f) := by
  intro e h
  cases x with
  | error e' => exact hx e (congrArg Except.error (Except.error.inj h))
  | ok a => exact hf a e h

theorem raises_readInt {message : String} {part text : List Char} :
    RaisesValueErrors (readInt message part text) := by
  unfold readInt
  cases pyInt (String.ofList text) with
  | none => exact raises_error rfl
  | some n => exact raises_ok n

theorem raises_bounds {part base : List Char} {slash : Bool} {low high : ℤ} :
    RaisesValueErrors (bounds part base slash low high) := by
  unfold bounds
  split
  · exact raises_ok _
  · split
    · refine raises_bind raises_readInt fun first => raises_bind raises_readInt fun last => ?_
      split
      · exact raises_error rfl
      · exact raises_ok _
    · exact raises_bind raises_readInt fun first => raises_ok _

theorem raises_parsePart {low high : ℤ} {part : List Char} :
    RaisesValueErrors (parsePart low high part) := by
  unfold parsePart
  rcases partition '/' part with ⟨base, stepText⟩
  have hstep : RaisesValueErrors (stepText.elim (.ok 1) (readInt "invalid cron step" part)) := by
    cases stepText with
    | none => exact raises_ok 1
    | some text =>
        rw [Option.elim_some]
        exact raises_readInt
  dsimp only
  refine raises_bind hstep fun step => ?_
  split
  · exact raises_error rfl
  · refine raises_bind raises_bounds fun range => ?_
    split
    · exact raises_error rfl
    · exact raises_ok _

theorem raises_mapM {α β : Type} {f : α → Except PyError β} (hf : ∀ a, RaisesValueErrors (f a))
    (xs : List α) : RaisesValueErrors (xs.mapM f) := by
  induction xs with
  | nil => exact raises_ok []
  | cons x xs ih =>
      rw [List.mapM_cons]
      exact raises_bind (hf x) fun _ => raises_bind ih fun _ => raises_ok _

theorem raises_parseField {text : List Char} {low high : ℤ} {dow : Bool} :
    RaisesValueErrors (parseField text low high dow) := by
  unfold parseField
  split
  · exact raises_error rfl
  · exact raises_bind (raises_mapM (fun _ => raises_parsePart) _) fun _ => raises_ok _

theorem mem_stepRange {first last step v : ℤ} (hstep : 0 < step) :
    v ∈ stepRange first last step ↔ v ≤ last ∧ ∃ i : ℕ, v = first + i * step := by
  have hcount (i : ℕ) : i < ((last - first) / step + 1).toNat ↔ first + i * step ≤ last := by
    rw [Int.lt_toNat, Int.lt_add_one_iff, Int.le_ediv_iff_mul_le hstep]
    omega
  simp only [stepRange, List.bind_eq_flatMap, List.pure_def, List.mem_map, List.mem_flatMap,
    List.mem_singleton, List.mem_range, hcount]
  constructor
  · rintro ⟨_, ⟨i, hi, rfl⟩, rfl⟩
    exact ⟨hi, i, rfl⟩
  · rintro ⟨hv, i, rfl⟩
    exact ⟨i, ⟨i, hv, rfl⟩, rfl⟩

/-! The grammar. -/

/-- A number of the grammar is written in ASCII digits. -/
inductive GrammarBase (low high : ℤ) (stepped : Bool) : List Char → ℤ → ℤ → Prop
  | all : GrammarBase low high stepped ['*'] low high
  | number {text : List Char} {n : ℤ} : numeral text = some n → low ≤ n → n ≤ high →
      GrammarBase low high stepped text n (if stepped then high else n)
  | range {text text' : List Char} {n m : ℤ} : numeral text = some n → numeral text' = some m →
      n ≤ m → low ≤ n → m ≤ high → GrammarBase low high stepped (text ++ '-' :: text') n m

inductive GrammarPart (low high : ℤ) : List Char → Set ℤ → Prop
  | plain {base : List Char} {first last : ℤ} : GrammarBase low high false base first last →
      GrammarPart low high base {v | first ≤ v ∧ v ≤ last}
  | stepped {base text : List Char} {first last step : ℤ} :
      GrammarBase low high true base first last → numeral text = some step → 0 < step →
      GrammarPart low high (base ++ '/' :: text) {v | v ≤ last ∧ ∃ i : ℕ, v = first + i * step}

/-- A text is a field of the parts that it lists. -/
def IsField (low high : ℤ) (text : List Char) (parts : List (List Char)) : Prop :=
  parts ≠ [] ∧ text = [','].intercalate parts ∧ ∀ part ∈ parts, ∃ values, GrammarPart low high part values

def denoted (low high : ℤ) (parts : List (List Char)) : Set ℤ :=
  {v | ∃ part ∈ parts, ∃ values, GrammarPart low high part values ∧ v ∈ values}

/-- Sunday is both 0 and 7. -/
def identified (dow : Bool) (values : Set ℤ) : Set ℤ :=
  if dow then {v | v ∈ values ∧ v ≠ 7 ∨ v = 0 ∧ 7 ∈ values} else values

/-- The parser accepts the fields of the grammar, and these alone, with what they denote. -/
structure ParsesGrammar (text : List Char) (low high : ℤ) (dow : Bool) : Prop where
  accepts : ∀ parts, IsField low high text parts → ∃ values,
    parseField text low high dow = .ok values ∧
      ∀ v, v ∈ values ↔ v ∈ identified dow (denoted low high parts)
  rejects : (∀ parts, ¬ IsField low high text parts) → ∃ e,
    parseField text low high dow = .error e ∧ e.cls = .valueError

variable {low high first last step : ℤ} {stepped : Bool} {base part text : List Char}
  {values : Set ℤ} {form : Form}

/-! The grammar on forms. -/

theorem numeral_notMem {n : ℤ} {c : Char} (h : numeral text = some n) (hc : c.isDigit = false) :
    c ∉ text := by
  intro hmem
  exact absurd ((numeral_eq_some.1 h).2.1 c hmem) (by simp [hc])

theorem numeral_ne_all {n : ℤ} (h : numeral text = some n) : text ≠ ['*'] := by
  rintro rfl
  have hnone : numeral ['*'] = none := by decide
  simp [hnone] at h

theorem baseOf_number {n : ℤ} (h : numeral text = some n) : baseOf text = .number text := by
  rw [baseOf, if_neg (numeral_ne_all h), partition_of_notMem (numeral_notMem h rfl)]

theorem baseOf_range {text' : List Char} {n : ℤ} (h : numeral text = some n) :
    baseOf (text ++ '-' :: text') = .range text text' := by
  have hne : text ++ '-' :: text' ≠ ['*'] := by
    intro heq
    have hmem : '-' ∈ (['*'] : List Char) := heq ▸ (by simp)
    exact absurd hmem (by decide)
  rw [baseOf, if_neg hne, partition_append (numeral_notMem h rfl)]

theorem grammarBase_iff : GrammarBase low high stepped base first last ↔
    BaseDenotes numeral low high stepped (baseOf base) first last ∧ low ≤ first ∧ last ≤ high ∧
      ∀ text, baseOf base = .number text → first ≤ high := by
  constructor
  · intro h
    cases h with
    | all => exact ⟨.all, le_refl _, le_refl _, by simp [baseOf]⟩
    | number hn hlow hhigh =>
        rw [baseOf_number hn]
        refine ⟨.number hn, hlow, ?_, fun _ _ => hhigh⟩
        split
        · exact le_refl _
        · exact hhigh
    | range hn hm hle hlow hhigh =>
        rw [baseOf_range hn]
        exact ⟨.range hn hm hle, hlow, hhigh, by simp⟩
  · rintro ⟨hbase, hlow, hhigh, hnumber⟩
    unfold baseOf at hbase hnumber
    split at hbase
    · rename_i hall
      cases hbase
      rw [hall]
      exact .all
    · rename_i hall
      rw [if_neg hall] at hnumber
      rcases partition_cases '-' base with ⟨hp, -⟩ | ⟨before, after, hp, -, rfl⟩
      · rw [hp] at hbase hnumber
        cases hbase with
        | number hn => exact .number hn hlow (hnumber base rfl)
      · rw [hp] at hbase
        cases hbase with
        | range hn hm hle => exact .range hn hm hle hlow hhigh

theorem grammarBase_notMem {c : Char} (h : GrammarBase low high stepped base first last)
    (hc : c.isDigit = false) (hall : c ≠ '*') (hrange : c ≠ '-') : c ∉ base := by
  cases h with
  | all => simpa using hall
  | number hn _ _ => exact numeral_notMem hn hc
  | range hn hm _ _ _ => simp [numeral_notMem hn hc, numeral_notMem hm hc, hrange]

theorem grammarPart_notMem (h : GrammarPart low high part values) : ',' ∉ part := by
  cases h with
  | plain hbase => exact grammarBase_notMem hbase rfl (by decide) (by decide)
  | stepped hbase hstep _ =>
      have hnot := grammarBase_notMem (c := ',') hbase rfl (by decide) (by decide)
      simp [hnot, numeral_notMem (c := ',') hstep rfl]

theorem setOf_stepRange (hstep : 0 < step) : {v | v ∈ stepRange first last step} =
    {v | v ≤ last ∧ ∃ i : ℕ, v = first + i * step} := by
  ext v
  exact mem_stepRange hstep

theorem setOf_stepRange_one :
    {v | v ∈ stepRange first last 1} = {v | first ≤ v ∧ v ≤ last} := by
  ext v
  refine (mem_stepRange one_pos).trans (and_comm.trans (and_congr_left fun _ => ⟨?_, fun hle => ?_⟩))
  · rintro ⟨i, rfl⟩
    omega
  · refine ⟨(v - first).toNat, ?_⟩
    rw [Int.toNat_of_nonneg (by omega)]
    omega

/-- The last value of a grammatical part may be out of reach, its first one may not. -/
def Form.StartsWithin (high : ℤ) (form : Form) (first : ℤ) : Prop :=
  ∀ text, form.base = .number text → first ≤ high

theorem grammarPart_iff : GrammarPart low high part values ↔ ∃ first last step,
    Denotes numeral low high (formOf part) first last step ∧ (formOf part).StartsWithin high first ∧
      values = {v | v ∈ stepRange first last step} := by
  constructor
  · intro h
    cases h with
    | @plain base first last hbase =>
        have hnot := grammarBase_notMem (c := '/') hbase rfl (by decide) (by decide)
        obtain ⟨hdenotes, hlow, hhigh, hnumber⟩ := grammarBase_iff.1 hbase
        rw [formOf, partition_of_notMem hnot]
        exact ⟨first, last, 1, ⟨hdenotes, rfl, hlow, hhigh⟩, hnumber, setOf_stepRange_one.symm⟩
    | @stepped base text first last step hbase hstep hpos =>
        have hnot := grammarBase_notMem (c := '/') hbase rfl (by decide) (by decide)
        obtain ⟨hdenotes, hlow, hhigh, hnumber⟩ := grammarBase_iff.1 hbase
        rw [formOf, partition_append hnot]
        exact ⟨first, last, step, ⟨hdenotes, ⟨hstep, hpos⟩, hlow, hhigh⟩, hnumber,
          (setOf_stepRange hpos).symm⟩
  · rintro ⟨first, last, step, ⟨hbase, hstep, hlow, hhigh⟩, hnumber, rfl⟩
    unfold formOf at hbase hstep hnumber
    rcases partition_cases '/' part with ⟨hp, -⟩ | ⟨before, after, hp, -, rfl⟩
    · rw [hp] at hbase hstep hnumber
      obtain rfl : step = 1 := hstep
      rw [setOf_stepRange_one]
      exact .plain (grammarBase_iff.2 ⟨hbase, hlow, hhigh, hnumber⟩)
    · rw [hp] at hbase hstep hnumber
      obtain ⟨hread, hpos⟩ : numeral after = some step ∧ 0 < step := hstep
      rw [setOf_stepRange hpos]
      exact .stepped (grammarBase_iff.2 ⟨hbase, hlow, hhigh, hnumber⟩) hread hpos

/-! What the parser reads, and what is in the grammar. -/

theorem baseDenotes_congr {read read' : List Char → Option ℤ} {b : Base}
    (hsame : ∀ text ∈ b.numbers, read text = read' text)
    (h : BaseDenotes read low high stepped b first last) :
    BaseDenotes read' low high stepped b first last := by
  cases h with
  | all => exact .all
  | number hn => exact .number (by rwa [← hsame _ (by simp [Base.numbers])])
  | range hn hm hle =>
      exact .range (by rwa [← hsame _ (by simp [Base.numbers])])
        (by rwa [← hsame _ (by simp [Base.numbers])]) hle

theorem denotes_congr {read read' : List Char → Option ℤ}
    (hsame : ∀ text ∈ form.numbers, read text = read' text)
    (h : Denotes read low high form first last step) :
    Denotes read' low high form first last step := by
  obtain ⟨hbase, hstep, hlow, hhigh⟩ := h
  refine ⟨baseDenotes_congr (fun t ht => hsame t (List.mem_append_left _ ht)) hbase, ?_, hlow, hhigh⟩
  cases hs : form.step with
  | none => rwa [hs] at hstep
  | some text =>
      rw [hs, Option.elim_some] at hstep
      rw [Option.elim_some, ← hsame text (List.mem_append_right _ (by simp [hs]))]
      exact hstep

/-- Every number of a part that is read can be read. -/
theorem Denotes.numbers {read : List Char → Option ℤ}
    (h : Denotes read low high form first last step) :
    ∀ text ∈ form.numbers, ∃ n, read text = some n := by
  obtain ⟨hbase, hstep, -, -⟩ := h
  intro text htext
  rcases List.mem_append.1 htext with htext | htext
  · generalize form.base = b at hbase htext
    cases hbase with
    | all => simp [Base.numbers] at htext
    | number hn =>
        obtain rfl : text = _ := by simpa [Base.numbers] using htext
        exact ⟨_, hn⟩
    | range hn hm _ =>
        rcases (by simpa [Base.numbers] using htext) with rfl | rfl
        · exact ⟨_, hn⟩
        · exact ⟨_, hm⟩
  · rw [Option.mem_toList.1 htext, Option.elim_some] at hstep
    exact ⟨step, hstep.1⟩

/-- The numbers are short and in ASCII digits, and a start with a step is within the field. -/
structure Clean (high : ℤ) (part : List Char) : Prop where
  numbers : ∀ text ∈ (formOf part).numbers, text ≠ [] ∧ (∀ c ∈ text, c.isDigit = true) ∧
    text.length ≤ maxStrDigits
  start : ∀ text n, (formOf part).base = .number text → (formOf part).step.isSome = true →
    numeral text = some n → n ≤ high

/-- The part has a form whose numbers `int` reads, and its values lie in the field. -/
def Readable (low high : ℤ) (part : List Char) : Prop :=
  ∃ first last step, Denotes intOf low high (formOf part) first last step

def Grammatical (low high : ℤ) (part : List Char) : Prop :=
  ∃ values, GrammarPart low high part values

theorem intOf_of_numeral {n : ℤ} (h : numeral text = some n) :
    intOf text = if text.length ≤ maxStrDigits then some n else none := pyInt_of_numeral h

theorem Clean.intOf_eq (h : Clean high part) :
    ∀ text ∈ (formOf part).numbers, intOf text = numeral text := by
  intro text htext
  obtain ⟨hne, hdigits, hlength⟩ := h.numbers text htext
  have hnumeral := numeral_eq_some.2 ⟨hne, hdigits, rfl⟩
  rw [intOf_of_numeral hnumeral, if_pos hlength, hnumeral]

theorem Clean.denotes_iff (h : Clean high part) :
    Denotes intOf low high (formOf part) first last step ↔
      Denotes numeral low high (formOf part) first last step :=
  ⟨denotes_congr h.intOf_eq, denotes_congr fun text htext => (h.intOf_eq text htext).symm⟩

/-- A start without a step is the last value, which has been compared. -/
theorem Clean.startsWithin (h : Clean high part)
    (hdenotes : Denotes numeral low high (formOf part) first last step) :
    (formOf part).StartsWithin high first := by
  intro text htext
  obtain ⟨hbase, -, -, hhigh⟩ := hdenotes
  have hstart := h.start text
  rw [htext] at hbase hstart
  cases hbase with
  | number hn =>
      by_cases hstepped : (formOf part).step.isSome = true
      · exact hstart first rfl hstepped hn
      · rwa [if_neg hstepped] at hhigh

theorem Clean.readable_iff (h : Clean high part) :
    Readable low high part ↔ Grammatical low high part := by
  constructor
  · rintro ⟨first, last, step, hdenotes⟩
    have hnumeral := h.denotes_iff.1 hdenotes
    exact ⟨_, grammarPart_iff.2 ⟨first, last, step, hnumeral, h.startsWithin hnumeral, rfl⟩⟩
  · rintro ⟨values, hgrammar⟩
    obtain ⟨first, last, step, hdenotes, -, -⟩ := grammarPart_iff.1 hgrammar
    exact ⟨first, last, step, h.denotes_iff.2 hdenotes⟩

/-- What is read and in the grammar is clean. -/
theorem clean_of_both (hreadable : Readable low high part) (hgrammar : Grammatical low high part) :
    Clean high part := by
  obtain ⟨first, last, step, hread⟩ := hreadable
  obtain ⟨values, hpart⟩ := hgrammar
  obtain ⟨first', last', step', hdenotes, hwithin, -⟩ := grammarPart_iff.1 hpart
  constructor
  · intro text htext
    obtain ⟨n, hn⟩ := hdenotes.numbers text htext
    obtain ⟨m, hm⟩ := hread.numbers text htext
    obtain ⟨hne, hdigits, -⟩ := numeral_eq_some.1 hn
    refine ⟨hne, hdigits, ?_⟩
    by_contra hlong
    rw [intOf_of_numeral hn, if_neg hlong] at hm
    simp at hm
  · intro text n htext _ hn
    have hstart := hwithin text htext
    have hbase := hdenotes.base
    rw [htext] at hbase
    cases hbase with
    | number hn' => rwa [Option.some.inj (hn.symm.trans hn')]

theorem isField_iff {parts : List (List Char)} : IsField low high text parts ↔
    parts = splitOn ',' text ∧ ∀ part ∈ splitOn ',' text, Grammatical low high part := by
  constructor
  · rintro ⟨hne, rfl, hparts⟩
    have hsplit := splitOn_intercalate hne fun part hpart =>
      grammarPart_notMem (hparts part hpart).choose_spec
    rw [hsplit]
    exact ⟨rfl, hparts⟩
  · rintro ⟨rfl, hparts⟩
    exact ⟨splitOn_ne_nil _ _, (intercalate_splitOn _ _).symm, hparts⟩

theorem mapM_parsePart {parts : List (List Char)} (h : ∀ part ∈ parts, Readable low high part) :
    ∃ lists, parts.mapM (parsePart low high) = .ok lists := by
  induction parts with
  | nil => exact ⟨[], rfl⟩
  | cons part parts ih =>
      obtain ⟨first, last, step, hdenotes⟩ := h part (List.mem_cons_self ..)
      obtain ⟨lists, hlists⟩ := ih fun p hp => h p (List.mem_cons_of_mem _ hp)
      have hpart := parsePart_ok.2 ⟨first, last, step, hdenotes, rfl⟩
      exact ⟨_, by rw [List.mapM_cons, hpart, hlists]; rfl⟩

theorem mapM_parsePart_ok {parts : List (List Char)} {lists : List (List ℤ)}
    (h : parts.mapM (parsePart low high) = .ok lists) :
    (∀ part ∈ parts, Readable low high part) ∧
      ∀ v, v ∈ lists.flatten ↔ ∃ part ∈ parts, ∃ first last step,
        Denotes intOf low high (formOf part) first last step ∧ v ∈ stepRange first last step := by
  induction parts generalizing lists with
  | nil =>
      obtain rfl := Except.ok.inj h
      simp
  | cons part parts ih =>
      rw [List.mapM_cons] at h
      obtain ⟨values, hvalues, h⟩ := bind_eq_ok.1 h
      obtain ⟨rest, hrest, h⟩ := bind_eq_ok.1 h
      obtain rfl := Except.ok.inj h
      obtain ⟨hreadable, hmem⟩ := ih hrest
      obtain ⟨first, last, step, hdenotes, rfl⟩ := parsePart_ok.1 hvalues
      refine ⟨List.forall_mem_cons.2 ⟨⟨first, last, step, hdenotes⟩, hreadable⟩, fun v => ?_⟩
      rw [List.flatten_cons, List.mem_append, hmem v]
      constructor
      · rintro (hv | ⟨p, hp, hv⟩)
        · exact ⟨part, List.mem_cons_self .., first, last, step, hdenotes, hv⟩
        · exact ⟨p, List.mem_cons_of_mem _ hp, hv⟩
      · rintro ⟨p, hp, first', last', step', hdenotes', hv⟩
        rcases List.mem_cons.1 hp with rfl | hp
        · have hsame := parsePart_ok.2 ⟨_, _, _, hdenotes', rfl⟩
          rw [Except.ok.inj (hvalues.symm.trans hsame)]
          exact .inl hv
        · exact .inr ⟨p, hp, first', last', step', hdenotes', hv⟩

theorem not_readable_nil : ¬ Readable low high [] := by
  rintro ⟨first, last, step, hbase, -⟩
  have hform : formOf [] = ⟨.number [], none⟩ := rfl
  rw [hform] at hbase
  cases hbase with
  | number hn =>
      have hnone : intOf [] = none := by decide
      simp [hnone] at hn

theorem parseField_ok {dow : Bool} {values : List ℤ} (h : parseField text low high dow = .ok values) :
    (∀ part ∈ splitOn ',' text, Readable low high part) ∧
      ∀ v, v ∈ values ↔ v ∈ identified dow {v | ∃ part ∈ splitOn ',' text, ∃ first last step,
        Denotes intOf low high (formOf part) first last step ∧ v ∈ stepRange first last step} := by
  unfold parseField at h
  split at h
  · simp at h
  · obtain ⟨lists, hlists, h⟩ := bind_eq_ok.1 h
    obtain ⟨hreadable, hmem⟩ := mapM_parsePart_ok hlists
    obtain rfl := Except.ok.inj h
    refine ⟨hreadable, fun v => ?_⟩
    have hmem' (v : ℤ) : (v ∈ {v | ∃ part ∈ splitOn ',' text, ∃ first last step,
        Denotes intOf low high (formOf part) first last step ∧ v ∈ stepRange first last step}) ↔
        v ∈ lists.flatten := (hmem v).symm
    unfold identified
    cases dow with
    | false => simpa using hmem v
    | true =>
        rw [if_pos rfl]
        change _ ↔ (_ ∧ v ≠ 7 ∨ v = 0 ∧ _)
        rw [hmem' v, hmem' 7]
        by_cases hseven : 7 ∈ lists.flatten
        · rw [if_pos (by simpa using hseven), List.mem_cons, List.mem_filter]
          simp only [ne_eq, decide_not, Bool.not_eq_true', decide_eq_false_iff_not]
          tauto
        · rw [if_neg (by simpa using hseven)]
          have hne : v ∈ lists.flatten → v ≠ 7 := fun hv heq => hseven (heq ▸ hv)
          tauto

/-- The field is accepted as soon as each part is read. -/
theorem parseField_of_readable {dow : Bool} (h : ∀ part ∈ splitOn ',' text, Readable low high part) :
    ∃ values, parseField text low high dow = .ok values := by
  have hne : text ≠ [] := by
    rintro rfl
    exact not_readable_nil (h [] (by simp [splitOn]))
  obtain ⟨lists, hlists⟩ := mapM_parsePart h
  exact ⟨_, by rw [parseField, if_neg hne, hlists]; rfl⟩

theorem parseField_rejects {dow : Bool} (h : ¬ ∀ part ∈ splitOn ',' text, Readable low high part) :
    ∃ e, parseField text low high dow = .error e ∧ e.cls = .valueError := by
  cases hparse : parseField text low high dow with
  | error e => exact ⟨e, rfl, raises_parseField e hparse⟩
  | ok values => exact absurd (parseField_ok hparse).1 h

/-- Of clean parts the parser and the grammar denote the same. -/
theorem denoted_of_clean (h : ∀ part ∈ splitOn ',' text, Clean high part) :
    denoted low high (splitOn ',' text) = {v | ∃ part ∈ splitOn ',' text, ∃ first last step,
      Denotes intOf low high (formOf part) first last step ∧ v ∈ stepRange first last step} := by
  ext v
  constructor
  · rintro ⟨part, hpart, values, hgrammar, hv⟩
    obtain ⟨first, last, step, hdenotes, -, rfl⟩ := grammarPart_iff.1 hgrammar
    exact ⟨part, hpart, first, last, step, (h part hpart).denotes_iff.2 hdenotes, hv⟩
  · rintro ⟨part, hpart, first, last, step, hdenotes, hv⟩
    have hnumeral := (h part hpart).denotes_iff.1 hdenotes
    exact ⟨part, hpart, _, grammarPart_iff.2
      ⟨first, last, step, hnumeral, (h part hpart).startsWithin hnumeral, rfl⟩, hv⟩

end Cron

end Polaris
