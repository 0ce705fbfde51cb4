import Polaris.Library.PyJsonRoundTrip

namespace PyJson
open SortedDict PyVal

/-- What `json.dumps` prints for a character when it escapes all but printable ASCII. -/
def asciiEscape (c : Char) : List Char :=
  if 32 ≤ c.toNat ∧ c.toNat ≤ 126 then [c]
  else
    let unit (n : ℕ) : List Char := ['\\', 'u', hexDigit (n / 4096), hexDigit (n / 256 % 16),
      hexDigit (n / 16 % 16), hexDigit (n % 16)]
    if c.toNat < 65536 then unit c.toNat
    else unit (0xd800 + (c.toNat - 65536) / 1024) ++ unit (0xdc00 + (c.toNat - 65536) % 1024)

/-- `json.dumps(value, sort_keys=True, separators=(",", ":"))` of finite values -/
def asciiJson (v : PyVal) : String := String.ofList ((text v.normal).flatMap asciiEscape)

/-- `json.dumps(value, sort_keys=True, ensure_ascii=True)` of a dict of scalars -/
def asciiLine (es : List (String × PyVal)) : String :=
  "\x7b" ++ ", ".intercalate ((sortKeys es).map fun e =>
    asciiJson (.str e.1) ++ ": " ++ asciiJson e.2) ++ "\x7d"

/-! What is printed is printable ASCII. -/

def IsPrintable (c : Char) : Prop := 32 ≤ c.toNat ∧ c.toNat ≤ 126

instance (c : Char) : Decidable (IsPrintable c) := by
  unfold IsPrintable
  infer_instance

theorem forall_printable {cs : List Char} (h : cs.all (IsPrintable ·) = true) :
    ∀ c ∈ cs, IsPrintable c := by
  simpa using h

theorem hexDigit_printable : ∀ d, d < 16 → IsPrintable (hexDigit d) := by decide

theorem asciiEscape_printable (c : Char) : ∀ d ∈ asciiEscape c, IsPrintable d := by
  have hunit : ∀ n, n < 65536 → ∀ d ∈ ['\\', 'u', hexDigit (n / 4096), hexDigit (n / 256 % 16),
      hexDigit (n / 16 % 16), hexDigit (n % 16)], IsPrintable d := by
    intro n hn d hd
    simp only [List.mem_cons, List.not_mem_nil, or_false] at hd
    rcases hd with rfl | rfl | rfl | rfl | rfl | rfl
    · decide
    · decide
    · exact hexDigit_printable _ (by omega)
    · exact hexDigit_printable _ (by omega)
    · exact hexDigit_printable _ (by omega)
    · exact hexDigit_printable _ (by omega)
  have hchar : c.toNat < 0x110000 := by
    rcases c.valid with h | h
    · exact Nat.lt_trans h (by decide)
    · exact h.2
  unfold asciiEscape
  split
  next hprintable => simpa [IsPrintable] using hprintable
  next =>
    dsimp only
    split
    · exact hunit _ (by omega)
    · intro d hd
      rcases List.mem_append.1 hd with hd | hd
      · exact hunit _ (by omega) d hd
      · exact hunit _ (by omega) d hd

theorem asciiEscape_of_printable {c : Char} (h : IsPrintable c) : asciiEscape c = [c] := if_pos h

theorem flatMap_asciiEscape {cs : List Char} (h : ∀ c ∈ cs, IsPrintable c) :
    cs.flatMap asciiEscape = cs := by
  induction cs with
  | nil => rfl
  | cons c cs ih =>
      rw [List.flatMap_cons, asciiEscape_of_printable (h c (by simp)),
        ih fun d hd => h d (by simp [hd])]
      rfl

theorem asciiJson_printable (v : PyVal) : ∀ c ∈ (asciiJson v).toList, IsPrintable c := by
  intro c hc
  rw [asciiJson, String.toList_ofList] at hc
  obtain ⟨d, -, hd⟩ := List.mem_flatMap.1 hc
  exact asciiEscape_printable d c hd

/-! What is read back. -/

/-- The units that a reader finds for a character. -/
def asciiUnits (c : Char) : List (Char ⊕ ℕ) :=
  if c.toNat ≤ 126 then [unitOf c]
  else if c.toNat < 65536 then [.inr c.toNat]
  else [.inr (0xd800 + (c.toNat - 65536) / 1024), .inr (0xdc00 + (c.toNat - 65536) % 1024)]

theorem hex4_unit {n : ℕ} (h : n < 65536) : hex4 (hexDigit (n / 4096)) (hexDigit (n / 256 % 16))
    (hexDigit (n / 16 % 16)) (hexDigit (n % 16)) = some n := by
  simp only [hex4, hexValue_hexDigit (n / 4096) (by omega),
    hexValue_hexDigit (n / 256 % 16) (by omega), hexValue_hexDigit (n / 16 % 16) (by omega),
    hexValue_hexDigit (n % 16) (by omega)]
  simp only [Option.bind_eq_bind, Option.bind_some, Option.pure_def, Option.some.injEq]
  omega

theorem readString_unit {n : ℕ} (h : n < 65536) (cs : List Char) :
    readString ('\\' :: 'u' :: hexDigit (n / 4096) :: hexDigit (n / 256 % 16) ::
      hexDigit (n / 16 % 16) :: hexDigit (n % 16) :: cs) =
        (readString cs).map fun p => (.inr n :: p.1, p.2) := by
  rw [readString, hex4_unit h]
  rfl

theorem escape_printable {n : ℕ} (h : n ≤ 126) : ∀ d ∈ escape (Char.ofNat n), IsPrintable d := by
  have hall : ∀ m, m ≤ 126 → (escape (Char.ofNat m)).all (IsPrintable ·) = true := by decide +kernel
  exact forall_printable (hall n h)

theorem readString_ascii (c : Char) (cs : List Char) :
    readString ((escape c).flatMap asciiEscape ++ cs) =
      (readString cs).map fun p => (asciiUnits c ++ p.1, p.2) := by
  by_cases hlow : c.toNat ≤ 126
  · have hprintable : ∀ d ∈ escape c, IsPrintable d := by
      have h := escape_printable hlow
      rwa [Char.ofNat_toNat] at h
    rw [flatMap_asciiEscape hprintable, readString_escape, asciiUnits, if_pos hlow]
    rfl
  · have hescape : escape c = [c] := by
      have hne : ∀ d : Char, d.toNat ≤ 126 → c ≠ d := by
        rintro d hd rfl
        exact hlow hd
      simp only [escape, if_neg (hne _ (by decide : '"'.toNat ≤ 126)),
        if_neg (hne _ (by decide : '\\'.toNat ≤ 126)), if_neg (hne _ (by decide : '\n'.toNat ≤ 126)),
        if_neg (hne _ (by decide : '\r'.toNat ≤ 126)), if_neg (hne _ (by decide : '\t'.toNat ≤ 126)),
        if_neg (hne _ (by decide : '\x0c'.toNat ≤ 126)),
        if_neg (hne _ (by decide : '\x08'.toNat ≤ 126)), if_neg (show ¬ c.toNat < 32 by omega)]
    have hchar : c.toNat < 0x110000 := by
      rcases c.valid with h | h
      · exact Nat.lt_trans h (by decide)
      · exact h.2
    rw [hescape, List.flatMap_singleton, asciiEscape, if_neg (by omega), asciiUnits, if_neg hlow]
    dsimp only
    split
    next hbmp =>
      simp only [List.cons_append, List.nil_append]
      exact readString_unit hbmp cs
    next hbmp =>
      simp only [List.cons_append, List.nil_append]
      rw [readString_unit (by omega), readString_unit (by omega), Option.map_map]
      rfl

theorem joinUnits_inr {n : ℕ} (hlow : ¬ (0xd800 ≤ n ∧ n < 0xe000)) (units : List (Char ⊕ ℕ)) :
    joinUnits (.inr n :: units) = (joinUnits units).map (Char.ofNat n :: ·) := by
  cases units with
  | nil => simp [joinUnits, hlow]
  | cons unit units =>
      cases unit with
      | inl c => simp [joinUnits, hlow]
      | inr l =>
          rw [joinUnits, if_neg (show ¬ (0xd800 ≤ n ∧ n < 0xdc00) by omega),
            if_neg (show ¬ (0xdc00 ≤ n ∧ n < 0xe000) by omega)]

theorem joinUnits_unitOf (c : Char) (units : List (Char ⊕ ℕ)) :
    joinUnits (unitOf c :: units) = (joinUnits units).map (c :: ·) := by
  cases hc : unitOf c with
  | inl d => rw [joinUnits, unitOf_inl hc]
  | inr n =>
      obtain ⟨rfl, hn⟩ := unitOf_inr hc
      rw [joinUnits_inr (by omega), Char.ofNat_toNat]

theorem joinUnits_pair {n : ℕ} (h : n < 0x100000) (units : List (Char ⊕ ℕ)) :
    joinUnits (.inr (0xd800 + n / 1024) :: .inr (0xdc00 + n % 1024) :: units) =
      (joinUnits units).map (Char.ofNat (0x10000 + n) :: ·) := by
  have hvalue : 0x10000 + (0xd800 + n / 1024 - 0xd800) * 0x400 + (0xdc00 + n % 1024 - 0xdc00) =
      0x10000 + n := by omega
  rw [joinUnits, if_pos (by omega), if_pos (by omega), hvalue]

theorem joinUnits_ascii (cs : List Char) : joinUnits (cs.flatMap asciiUnits) = some cs := by
  induction cs with
  | nil => rfl
  | cons c cs ih =>
      rw [List.flatMap_cons, asciiUnits]
      split
      · rw [List.cons_append, List.nil_append, joinUnits_unitOf, ih]
        rfl
      · split
        next hbmp =>
          have hvalid : ¬ (0xd800 ≤ c.toNat ∧ c.toNat < 0xe000) := by
            rcases c.valid with h | h
            · have hlow : c.toNat < 0xd800 := h
              omega
            · have hhigh : 0xdfff < c.toNat := h.1
              omega
          rw [List.cons_append, List.nil_append, joinUnits_inr hvalid, ih, Char.ofNat_toNat]
          rfl
        next hbmp =>
          have hchar : c.toNat < 0x110000 := by
            rcases c.valid with h | h
            · exact Nat.lt_trans h (by decide)
            · exact h.2
          have hvalue : 0x10000 + (c.toNat - 65536) = c.toNat := by omega
          rw [List.cons_append, List.cons_append, List.nil_append, joinUnits_pair (by omega), ih,
            hvalue, Char.ofNat_toNat]
          rfl

theorem readString_asciiText (cs rest : List Char) :
    readString ((cs.flatMap escape).flatMap asciiEscape ++ '"' :: rest) =
      some (cs.flatMap asciiUnits, rest) := by
  induction cs with
  | nil => simp [readString]
  | cons c cs ih =>
      rw [List.flatMap_cons, List.flatMap_append, List.append_assoc, readString_ascii, ih]
      rfl

theorem parseString_ascii (s : String) (rest : List Char) :
    parseString ((s.toList.flatMap escape).flatMap asciiEscape ++ '"' :: rest) =
      some (s.toList, rest) := by
  simp [parseString, readString_asciiText, joinUnits_ascii]

theorem asciiJson_str (s : String) : (asciiJson (.str s)).toList =
    '"' :: ((s.toList.flatMap escape).flatMap asciiEscape ++ ['"']) := by
  have hquote : asciiEscape '"' = ['"'] := by decide
  simp [asciiJson, normal, text, stringText, hquote]

theorem asciiJson_int (n : ℤ) : (asciiJson (.int n)).toList = intText n := by
  simp only [asciiJson, String.toList_ofList, normal, text]
  refine flatMap_asciiEscape fun c hc => ?_
  have hnumber := intText_numberChars n c hc
  have hdigit : ∀ d : Char, d.isDigit = true → IsPrintable d := by
    intro d hd
    simp only [Char.isDigit, Bool.and_eq_true, decide_eq_true_eq, ge_iff_le, UInt32.le_iff_toNat_le]
      at hd
    have hlow : 48 ≤ d.toNat := hd.1
    have hhigh : d.toNat ≤ 57 := hd.2
    exact ⟨by omega, by omega⟩
  simp only [isNumberChar, Bool.or_eq_true, beq_iff_eq] at hnumber
  rcases hnumber with ((((hd | rfl) | rfl) | rfl) | rfl) | rfl
  · exact hdigit c hd
  all_goals decide

/-! A dict of scalars on one line. -/

inductive IsScalar : PyVal → Prop
  | str (s : String) : IsScalar (.str s)
  | int (n : ℤ) : IsScalar (.int n)

theorem IsScalar.parse {v : PyVal} (h : IsScalar v) (n : ℕ) {rest : List Char}
    (hrest : EndsNumber rest) :
    parseValue (n + 1) ((asciiJson v).toList ++ rest) = some (v, rest) := by
  cases h with
  | str s =>
      rw [asciiJson_str, List.cons_append, List.append_assoc]
      simp [parseValue, parseString_ascii]
  | int i => rw [asciiJson_int, parseValue_number (intText_opens i), parseNumber_intText i hrest]

theorem IsScalar.opens {v : PyVal} (h : IsScalar v) : OpensValue (asciiJson v).toList := by
  cases h with
  | str s =>
      rw [asciiJson_str]
      exact ⟨'"', _, rfl, by decide⟩
  | int i =>
      rw [asciiJson_int]
      exact (intText_opens i).opensValue

def entryText (e : String × PyVal) : String := asciiJson (.str e.1) ++ ": " ++ asciiJson e.2

theorem parseEntry {k : String} {v : PyVal} (h : IsScalar v) (n : ℕ) {tail : List Char}
    (htail : EndsNumber tail) :
    parseString ((k.toList.flatMap escape).flatMap asciiEscape ++
        '"' :: ':' :: ' ' :: ((asciiJson v).toList ++ tail)) =
      some (k.toList, ':' :: ' ' :: ((asciiJson v).toList ++ tail)) ∧
    skipBlanks (':' :: ' ' :: ((asciiJson v).toList ++ tail)) =
      ':' :: ' ' :: ((asciiJson v).toList ++ tail) ∧
    parseValue (n + 1) (skipBlanks (' ' :: ((asciiJson v).toList ++ tail))) = some (v, tail) := by
  refine ⟨parseString_ascii k _, by simp [skipBlanks, isBlank], ?_⟩
  have hopens := (h.opens.append tail).skipBlanks
  have hskip : skipBlanks (' ' :: ((asciiJson v).toList ++ tail)) = (asciiJson v).toList ++ tail := by
    simpa [skipBlanks, isBlank] using hopens
  rw [hskip, h.parse n htail]

theorem entryText_toList (k : String) (v : PyVal) (tail : List Char) :
    (entryText (k, v)).toList ++ tail = '"' :: ((k.toList.flatMap escape).flatMap asciiEscape ++
      '"' :: ':' :: ' ' :: ((asciiJson v).toList ++ tail)) := by
  have hcolon : (": ").toList = [':', ' '] := by decide
  simp only [entryText, String.toList_append, asciiJson_str, hcolon, List.cons_append,
    List.append_assoc, List.nil_append]

theorem parseEntries_last {k : String} {v : PyVal} (h : IsScalar v) (n : ℕ) (rest : List Char) :
    parseEntries (n + 2) ((entryText (k, v)).toList ++ '}' :: rest) = some ([(k, v)], rest) := by
  obtain ⟨hkey, hblank, hvalue⟩ :=
    @parseEntry k v h n ('}' :: rest) (by simp [EndsNumber, isNumberChar])
  rw [entryText_toList, parseEntries, hkey]
  simp only [Option.bind_eq_bind, Option.bind_some]
  rw [hblank]
  simp only
  rw [hvalue]
  simp [skipBlanks, isBlank]

theorem parseEntries_more {k : String} {v : PyVal} (h : IsScalar v) (n : ℕ) (more : List Char) :
    parseEntries (n + 2) ((entryText (k, v)).toList ++ ',' :: ' ' :: '"' :: more) =
      (parseEntries (n + 1) ('"' :: more)).map fun p => ((k, v) :: p.1, p.2) := by
  obtain ⟨hkey, hblank, hvalue⟩ :=
    @parseEntry k v h n (',' :: ' ' :: '"' :: more) (by simp [EndsNumber, isNumberChar])
  rw [entryText_toList, parseEntries, hkey]
  simp only [Option.bind_eq_bind, Option.bind_some]
  rw [hblank]
  simp only
  rw [hvalue]
  have hcomma : skipBlanks (',' :: ' ' :: '"' :: more) = ',' :: ' ' :: '"' :: more := by
    simp [skipBlanks, isBlank]
  have hquote : skipBlanks (' ' :: '"' :: more) = '"' :: more := by simp [skipBlanks, isBlank]
  simp only [Option.bind_some]
  rw [hcomma]
  simp only
  rw [hquote]
  cases parseEntries (n + 1) ('"' :: more) <;> simp

theorem parseEntries_line {es : List (String × PyVal)} (hes : es ≠ []) (h : ∀ e ∈ es, IsScalar e.2)
    {n : ℕ} (hn : es.length < n) (rest : List Char) :
    parseEntries n ((", ".intercalate (es.map entryText)).toList ++ '}' :: rest) =
      some (es, rest) := by
  induction es generalizing n with
  | nil => exact absurd rfl hes
  | cons e es ih =>
      obtain ⟨k, v⟩ := e
      have hscalar : IsScalar v := h (k, v) (by simp)
      obtain ⟨m, rfl⟩ : ∃ m, n = m + 2 := ⟨n - 2, by simp only [List.length_cons] at hn; omega⟩
      cases es with
      | nil =>
          rw [List.map_singleton, String.intercalate_singleton, parseEntries_last hscalar]
      | cons f es =>
          have hcomma : (", ").toList = [',', ' '] := by decide
          have hrest := ih (by simp) (fun e he => h e (by simp [he]))
            (show (f :: es).length < m + 1 by simp only [List.length_cons] at hn ⊢; omega)
          have hquote : ∃ tail, (", ".intercalate ((f :: es).map entryText)).toList ++ '}' :: rest =
              '"' :: tail := by
            rw [List.map_cons, String.toList_intercalate, entryText]
            cases es <;> simp [asciiJson_str, List.intercalate]
          obtain ⟨tail, htail⟩ := hquote
          rw [List.map_cons, List.map_cons, String.intercalate_cons_cons, ← List.map_cons,
            String.toList_append, String.toList_append, List.append_assoc, List.append_assoc, hcomma,
            htail]
          rw [htail] at hrest
          rw [List.cons_append, List.cons_append, List.nil_append, parseEntries_more hscalar, hrest]
          rfl

theorem lineText_opens (e : String × PyVal) (es : List (String × PyVal)) :
    ∃ tail, (", ".intercalate ((e :: es).map entryText)).toList = '"' :: tail := by
  rw [List.map_cons, String.toList_intercalate, entryText]
  cases es <;> simp [asciiJson_str, List.intercalate]

theorem length_le_lineText (es : List (String × PyVal)) :
    es.length ≤ (", ".intercalate (es.map entryText)).toList.length := by
  induction es with
  | nil => exact Nat.zero_le _
  | cons e es ih =>
      cases es with
      | nil =>
          obtain ⟨tail, htail⟩ := lineText_opens e []
          rw [htail]
          exact Nat.succ_le_succ (Nat.zero_le _)
      | cons f es =>
          have hcomma : (", ").toList.length = 2 := by decide
          rw [List.map_cons, List.map_cons, String.intercalate_cons_cons, ← List.map_cons,
            String.toList_append, String.toList_append, List.length_append, List.length_append, hcomma,
            List.length_cons]
          omega

/-- What is printed of a dict of texts and whole numbers is read as that dict. -/
theorem loads_asciiLine {es : List (String × PyVal)} (h : ∀ e ∈ es, IsScalar e.2) :
    loads (asciiLine es) = some (.map .dict (sortKeys es)) := by
  have hscalars : ∀ e ∈ sortKeys es, IsScalar e.2 := fun e he => h e (mem_sortKeys he)
  have hopen : ("\x7b").toList = ['{'] := by decide
  have hclose : ("\x7d").toList = ['}'] := by decide
  have htext : (asciiLine es).toList =
      '{' :: ((", ".intercalate ((sortKeys es).map entryText)).toList ++ ['}']) := by
    simp only [asciiLine, String.toList_append, hopen, hclose, List.cons_append, List.nil_append]
    rfl
  have hblank : skipBlanks (asciiLine es).toList = (asciiLine es).toList := by
    rw [htext]
    simp [skipBlanks, isBlank]
  have hparse : parseValue ((asciiLine es).toList.length + 1) (asciiLine es).toList =
      some (.map .dict (sortKeys es), []) := by
    rw [htext]
    cases hes : sortKeys es with
    | nil => simp [parseValue, skipBlanks, isBlank]
    | cons e rest =>
        have hentries := @parseEntries_line (sortKeys es) (by simp [hes]) hscalars
          ('{' :: ((", ".intercalate ((sortKeys es).map entryText)).toList ++ ['}'])).length (by
            have hlength := length_le_lineText (sortKeys es)
            simp only [List.length_cons, List.length_append]
            omega) []
        have hsorted := ofPairs_of_sorted (sortKeys_sorted es)
        obtain ⟨tail, htail⟩ := lineText_opens e rest
        rw [hes] at hentries hsorted
        rw [htail] at hentries ⊢
        simp only [List.cons_append, List.length_cons, List.length_append, List.length_nil]
          at hentries ⊢
        simp [parseValue, skipBlanks, isBlank]
        simp only [hentries, Option.bind_some, hsorted]
  rw [loads, hblank, hparse, Option.bind_eq_bind, Option.bind_some]
  exact if_pos rfl

theorem asciiLine_printable (es : List (String × PyVal)) :
    ∀ c ∈ (asciiLine es).toList, IsPrintable c := by
  have hparts : ∀ (parts : List String), (∀ part ∈ parts, ∀ c ∈ part.toList, IsPrintable c) →
      ∀ c ∈ (", ".intercalate parts).toList, IsPrintable c := by
    intro parts
    induction parts with
    | nil => simp
    | cons part parts ih =>
        intro h c hc
        cases parts with
        | nil => exact h part (by simp) c (by simpa using hc)
        | cons other parts =>
            rw [String.intercalate_cons_cons, String.toList_append, String.toList_append,
              List.mem_append, List.mem_append] at hc
            rcases hc with (hc | hc) | hc
            · exact h part (by simp) c hc
            · exact forall_printable (by decide) c hc
            · exact ih (fun part hpart => h part (by simp [hpart])) c hc
  intro c hc
  simp only [asciiLine, String.toList_append, List.mem_append] at hc
  rcases hc with (hc | hc) | hc
  · exact forall_printable (by decide) c hc
  · refine hparts _ (fun part hpart d hd => ?_) c hc
    obtain ⟨e, -, rfl⟩ := List.mem_map.1 hpart
    simp only [String.toList_append, List.mem_append] at hd
    rcases hd with (hd | hd) | hd
    · exact asciiJson_printable _ d hd
    · exact forall_printable (by decide) d hd
    · exact asciiJson_printable _ d hd
  · exact forall_printable (by decide) c hc

end PyJson
