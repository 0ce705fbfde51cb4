import Polaris.Memory.Redaction

namespace Polaris
open PyJson Replace

namespace MemoryBackend
variable (backend : MemoryBackend)

/-- `ORDER BY updated_at, entry_id, revision` -/
def auditBefore (v v' : MemoryRevision) : Bool :=
  v.entry.updatedAt < v'.entry.updatedAt || (v.entry.updatedAt = v'.entry.updatedAt &&
    (v.entry.id < v'.entry.id || (v.entry.id = v'.entry.id && v.entry.revision ≤ v'.entry.revision)))

def auditRows (scope : MemoryScope) (t : MemoryTables) : List MemoryRevision :=
  (t.revisions.filter fun v => v.entry.scope = scope).insertionSort fun v v' => auditBefore v v'

def auditColumns (v : MemoryRevision) : List (String × PyVal) := [
  ("entry_id", .str v.entry.id),
  ("profile_id", .str v.entry.scope.profileId),
  ("subject_key", .str v.entry.scope.subjectKey),
  ("content", .str v.entry.content),
  ("kind", .str v.entry.kind.value),
  ("trust_level", .str v.entry.trustLevel.value),
  ("provenance_run_id", optStr v.entry.provenance.runId),
  ("provenance_session_id", optStr v.entry.provenance.sessionId),
  ("provenance_message_id", optStr v.entry.provenance.messageId),
  ("created_at", .str (isoformat v.entry.createdAt)),
  ("updated_at", .str (isoformat v.entry.updatedAt)),
  ("revision", .int v.entry.revision),
  ("content_hash", .str v.entry.contentHash),
  ("blocked_reason", optStr v.entry.blockedReason),
  ("tombstoned", .bool v.entry.tombstoned),
  ("operation", .str v.operation)]

/-- Only texts are redacted. -/
def redacted : PyVal → PyVal
  | .str text => .str (backend.scanner.redact text)
  | v => v

def exportRedactedAudit (scope : MemoryScope) (t : MemoryTables) : List (List (String × PyVal)) :=
  (auditRows scope t).map fun v => (auditColumns v).map fun column =>
    (column.1, backend.redacted column.2)

def withoutHash (row : List (String × PyVal)) : List (String × PyVal) :=
  row.filter fun column => column.1 ≠ "content_hash"

end MemoryBackend

/-! Texts that differ in configured secrets only. -/

namespace ThreatScanner

def withoutPatterns (scanner : ThreatScanner) (content : String) : String :=
  secretPatterns.foldl (fun text p => scanner.regex.sub p "[REDACTED SECRET]" text) content

/-- The text that the patterns leave is in pieces, and each occurrence of a configured secret lies in
one that is a secret. -/
structure Reads (scanner : ThreatScanner) (text : String) (pieces : List (Char ⊕ List Char)) : Prop where
  filled : (scanner.withoutPatterns text).toList = fill id pieces
  aligned : Aligned (scanner.orderedSecrets.map String.toList) pieces

/-- No configured secret can share a character with a marker. -/
def ClearOfMarker (scanner : ThreatScanner) : Prop :=
  ∀ secret ∈ scanner.orderedSecrets, Clear "[REDACTED CONFIGURED SECRET]".toList secret.toList

end ThreatScanner

inductive SamePiece : Char ⊕ List Char → Char ⊕ List Char → Prop
  | char (c : Char) : SamePiece (.inl c) (.inl c)
  | secret (s s' : List Char) : SamePiece (.inr s) (.inr s')

/-- The texts differ in pieces that are configured secrets of the two sides. -/
def ApartInSecrets (scanner scanner' : ThreatScanner) (text text' : String) : Prop :=
  ∃ pieces pieces', List.Forall₂ SamePiece pieces pieces' ∧ scanner.Reads text pieces ∧
    scanner'.Reads text' pieces'

section
variable {scanner scanner' : ThreatScanner} {text text' : String}

theorem fill_same {marker : List Char} {pieces pieces' : List (Char ⊕ List Char)}
    (h : List.Forall₂ SamePiece pieces pieces') :
    fill (fun _ => marker) pieces = fill (fun _ => marker) pieces' := by
  induction h with
  | nil => rfl
  | cons hpiece _ ih =>
      cases hpiece with
      | char c => rw [fill, fill, ih]
      | secret s s' => rw [fill, fill, ih]

theorem ThreatScanner.orderedSecrets_sorted :
    scanner.orderedSecrets.Pairwise fun a b => b.length ≤ a.length := by
  let before : String → String → Prop := fun a b =>
    b.length < a.length || (a.length = b.length && !(b < a))
  have hbefore : ∀ a b, before a b ↔ b.length < a.length ∨ (a.length = b.length ∧ a ≤ b) := by
    intro a b
    simp only [before, Bool.or_eq_true, Bool.and_eq_true, decide_eq_true_eq, Bool.not_eq_true',
      decide_eq_false_iff_not, not_lt]
  have htotal : Std.Total before := ⟨fun a b => by
    rw [hbefore, hbefore]
    rcases lt_trichotomy a.length b.length with h | h | h
    · exact .inr (.inl h)
    · exact (le_total a b).imp (fun hle => .inr ⟨h, hle⟩) fun hle => .inr ⟨h.symm, hle⟩
    · exact .inl (.inl h)⟩
  have htrans : IsTrans String before := ⟨fun a b c => by
    rw [hbefore, hbefore, hbefore]
    rintro (h | ⟨h, hle⟩) (h' | ⟨h', hle'⟩)
    · exact .inl (h'.trans h)
    · exact .inl (h' ▸ h)
    · exact .inl (h ▸ h')
    · exact .inr ⟨h.trans h', hle.trans hle'⟩⟩
  have hsorted : scanner.orderedSecrets.Pairwise before := List.pairwise_insertionSort _ _
  refine hsorted.imp fun {a b} h => ?_
  rcases (hbefore a b).1 h with h | ⟨h, -⟩
  · exact h.le
  · exact h.ge

theorem ThreatScanner.redact_fill (hclear : scanner.ClearOfMarker)
    {pieces : List (Char ⊕ List Char)} (h : scanner.Reads text pieces) :
    (scanner.redact text).toList =
      fill (fun _ => "[REDACTED CONFIGURED SECRET]".toList) pieces := by
  have hfold : ∀ (secrets : List String) (content : String), (∀ s ∈ secrets, s ≠ "") →
      (secrets.foldl (fun text s => text.replace s "[REDACTED CONFIGURED SECRET]") content).toList =
        (secrets.map String.toList).foldl (fun text s => replaceAll id s
          "[REDACTED CONFIGURED SECRET]".toList 0 text) content.toList := by
    intro secrets
    induction secrets with
    | nil => exact fun _ _ => rfl
    | cons s secrets ih =>
        intro content hne
        obtain ⟨hs, hrest⟩ := List.forall_mem_cons.1 hne
        rw [List.foldl_cons, ih _ hrest, List.map_cons, List.foldl_cons, toList_replace hs]
  have hne : ∀ s ∈ scanner.orderedSecrets, s ≠ "" := fun s hs => (mem_orderedSecrets.1 hs).2
  have hredact : scanner.redact text = scanner.orderedSecrets.foldl (fun text s =>
      text.replace s "[REDACTED CONFIGURED SECRET]") (scanner.withoutPatterns text) := rfl
  rw [hredact, hfold _ _ hne, h.filled]
  refine foldl_replaceAll_fill (List.forall_mem_map.2 hclear) (List.forall_mem_map.2 fun s hs => ?_) ?_
    h.aligned
  · exact fun hnil => hne s hs (String.toList_eq_nil_iff.1 hnil)
  · refine List.pairwise_map.2 (orderedSecrets_sorted.imp fun {a b} hle => ?_)
    rwa [String.length_toList, String.length_toList]

theorem redact_apart (hclear : scanner.ClearOfMarker) (hclear' : scanner'.ClearOfMarker)
    (h : ApartInSecrets scanner scanner' text text') : scanner.redact text = scanner'.redact text' := by
  obtain ⟨pieces, pieces', hsame, hreads, hreads'⟩ := h
  apply String.toList_injective
  rw [ThreatScanner.redact_fill hclear hreads, ThreatScanner.redact_fill hclear' hreads',
    fill_same hsame]

end

namespace MemoryBackend

/-- Two values of a column: texts that differ in configured secrets, or one other value. -/
inductive AlikeValue (backend backend' : MemoryBackend) : PyVal → PyVal → Prop
  | text {t t' : String} (h : ApartInSecrets backend.scanner backend'.scanner t t') :
      AlikeValue backend backend' (.str t) (.str t')
  | null : AlikeValue backend backend' .null .null
  | int (n : ℤ) : AlikeValue backend backend' (.int n) (.int n)
  | bool (b : Bool) : AlikeValue backend backend' (.bool b) (.bool b)

/-- The rows of two scopes differ in configured secrets and in content hashes. -/
def AlikeRows (backend backend' : MemoryBackend) (scope scope' : MemoryScope) (t t' : MemoryTables) :
    Prop :=
  List.Forall₂ (fun v v' => List.Forall₂ (fun c c' => c.1 = c'.1 ∧
    (c.1 ≠ "content_hash" → AlikeValue backend backend' c.2 c'.2)) (auditColumns v) (auditColumns v'))
      (auditRows scope t) (auditRows scope' t')

section
variable {backend backend' : MemoryBackend} {scope scope' : MemoryScope} {t t' : MemoryTables}

theorem redacted_alike (hclear : backend.scanner.ClearOfMarker)
    (hclear' : backend'.scanner.ClearOfMarker) {v v' : PyVal} (h : AlikeValue backend backend' v v') :
    backend.redacted v = backend'.redacted v' := by
  cases h with
  | text h => rw [redacted, redacted, redact_apart hclear hclear' h]
  | null => rfl
  | int n => rfl
  | bool b => rfl

theorem redactedColumns_alike (hclear : backend.scanner.ClearOfMarker)
    (hclear' : backend'.scanner.ClearOfMarker) {columns columns' : List (String × PyVal)}
    (h : List.Forall₂ (fun c c' => c.1 = c'.1 ∧
      (c.1 ≠ "content_hash" → AlikeValue backend backend' c.2 c'.2)) columns columns') :
    withoutHash (columns.map fun c => (c.1, backend.redacted c.2)) =
      withoutHash (columns'.map fun c => (c.1, backend'.redacted c.2)) := by
  induction h with
  | nil => rfl
  | @cons c c' columns columns' hcolumn _ ih =>
      obtain ⟨hkey, hvalue⟩ := hcolumn
      rw [withoutHash, withoutHash] at ih ⊢
      rw [List.map_cons, List.map_cons, List.filter_cons, List.filter_cons, ih, ← hkey]
      split
      next hhash => rw [redacted_alike hclear hclear' (hvalue (by simpa using hhash))]
      next => rfl

theorem export_alike (hclear : backend.scanner.ClearOfMarker)
    (hclear' : backend'.scanner.ClearOfMarker) (h : AlikeRows backend backend' scope scope' t t') :
    (backend.exportRedactedAudit scope t).map withoutHash =
      (backend'.exportRedactedAudit scope' t').map withoutHash := by
  rw [exportRedactedAudit, exportRedactedAudit, List.map_map, List.map_map]
  unfold AlikeRows at h
  generalize auditRows scope t = rows, auditRows scope' t' = rows' at h
  induction h with
  | nil => rfl
  | cons hrow _ ih =>
      rw [List.map_cons, List.map_cons, ih]
      exact congrArg (· :: _) (redactedColumns_alike hclear hclear' hrow)

end

/-! A secret next to a token that a pattern matches, in two stores with a secret each. -/

namespace Token

/-- Where the token of a text begins. -/
def tokens : List (String × ℕ) :=
  [("key hunter2 sk-aaaaaaaaaaaaaaaaaaaa", 12), ("key swordfish sk-aaaaaaaaaaaaaaaaaaaa", 14)]

def found (p : Pattern) (text : String) : List (ℕ × ℕ) :=
  if p.name = "secret:api_token" then ((tokens.lookup text).map fun gap => (gap, 23)).toList else []

def regex : RegexEngine where
  search p text := !(found p text).isEmpty
  sub p new text := String.ofList (replaceSpans new.toList (found p text) text.toList)

def sha : Sha256 := .ofTable [
  ("key hunter2 sk-aaaaaaaaaaaaaaaaaaaa",
    "ddcbdcd62983ad26fd642370e400432d452d006140ce41534593ee2774ed4fd1"),
  ("key swordfish sk-aaaaaaaaaaaaaaaaaaaa",
    "867c6cde53b8c41d5b2b61fed65e8ebda2bae1f19f486106148085afb6a2f09f")]

def backend (secret : String) : MemoryBackend := ⟨sha, ⟨regex, [secret]⟩⟩

def scope : MemoryScope := ⟨.defaultProfile, .defaultProfile⟩

def row (content : String) : MemoryRevision := ⟨⟨"note", scope, content, .fact, .verified,
  ⟨none, none, none⟩, 1, 1, 1, sha.hexdigest content, some "secret:api_token;secret:configured",
  false⟩, "append"⟩

def store (content : String) : MemoryTables := ⟨⟨[(row content).entry], 1, []⟩, [row content], []⟩

theorem finds : regex.Finds found where
  sub_eq _ _ _ := String.toList_ofList
  inText p _ text := by
    unfold found
    split
    · cases hfound : tokens.lookup text with
      | none => exact trivial
      | some gap =>
          obtain ⟨before, after, htokens, -⟩ := List.lookup_eq_some_iff.1 hfound
          have hmem : (text, gap) ∈ tokens := htokens ▸ List.mem_append_right before List.mem_cons_self
          have hall : ∀ token ∈ tokens, 0 < 23 ∧ token.2 + 23 ≤ token.1.toList.length := by
            decide +kernel
          exact ⟨(hall _ hmem).1, (hall _ hmem).2, trivial⟩
    · exact trivial

def Plain (text : String) : Prop := tokens.lookup text = none ∧
  Aligned ["hunter2".toList] (text.toList.map .inl) ∧ Aligned ["swordfish".toList] (text.toList.map .inl)

instance (text : String) : Decidable (Plain text) := by
  unfold Plain
  infer_instance

theorem withoutPatterns_plain {text secret : String} (h : tokens.lookup text = none) :
    (backend secret).scanner.withoutPatterns text = text := by
  have hsub : ∀ p : Pattern, (backend secret).scanner.regex.sub p "[REDACTED SECRET]" text = text :=
    fun p => by
      have hfound : found p text = [] := by simp [found, h]
      simp only [backend, regex, hfound, replaceSpans, String.ofList_toList]
  rw [ThreatScanner.withoutPatterns]
  generalize secretPatterns = patterns
  induction patterns with
  | nil => rfl
  | cons p patterns ih =>
      rw [List.foldl_cons, hsub p, ih]

theorem orderedSecrets_eq {secret : String} (h : secret ≠ "") :
    (backend secret).scanner.orderedSecrets = [secret] := by
  simp [ThreatScanner.orderedSecrets, backend, h, List.dedup, List.pwFilter]

theorem fill_chars (cs : List Char) : fill id (cs.map .inl) = cs := by
  induction cs with
  | nil => rfl
  | cons c cs ih => rw [List.map_cons, fill, ih]

theorem apart_plain {text : String} (h : Plain text) :
    ApartInSecrets (backend "hunter2").scanner (backend "swordfish").scanner text text := by
  obtain ⟨htokens, hleft, hright⟩ := h
  refine ⟨text.toList.map .inl, text.toList.map .inl,
    List.forall₂_map_left_iff.2 (List.forall₂_map_right_iff.2 (List.forall₂_same.2 fun c _ => .char c)),
    ⟨?_, ?_⟩, ⟨?_, ?_⟩⟩
  · rw [withoutPatterns_plain htokens, fill_chars]
  · rw [orderedSecrets_eq (by decide)]
    exact hleft
  · rw [withoutPatterns_plain htokens, fill_chars]
  · rw [orderedSecrets_eq (by decide)]
    exact hright

/-- The pieces of a content once its token is replaced. -/
def pieces (secret : String) : List (Char ⊕ List Char) :=
  "key ".toList.map .inl ++ .inr secret.toList :: " [REDACTED SECRET]".toList.map .inl

theorem pieces_same : List.Forall₂ SamePiece (pieces "hunter2") (pieces "swordfish") := by
  have hchars : ∀ cs : List Char, List.Forall₂ SamePiece (cs.map .inl) (cs.map .inl) := fun cs =>
    List.forall₂_map_left_iff.2 (List.forall₂_map_right_iff.2 (List.forall₂_same.2 fun c _ => .char c))
  exact List.rel_append (hchars _) (.cons (.secret _ _) (hchars _))

theorem apart_contents : ApartInSecrets (backend "hunter2").scanner (backend "swordfish").scanner
    "key hunter2 sk-aaaaaaaaaaaaaaaaaaaa" "key swordfish sk-aaaaaaaaaaaaaaaaaaaa" := by
  refine ⟨pieces "hunter2", pieces "swordfish", pieces_same, ⟨?_, ?_⟩, ⟨?_, ?_⟩⟩
  · decide +kernel
  · rw [orderedSecrets_eq (by decide)]
    decide +kernel
  · decide +kernel
  · rw [orderedSecrets_eq (by decide)]
    decide +kernel

theorem columns_alike : List.Forall₂ (fun c c' => c.1 = c'.1 ∧ (c.1 ≠ "content_hash" →
    AlikeValue (backend "hunter2") (backend "swordfish") c.2 c'.2))
      (auditColumns (row "key hunter2 sk-aaaaaaaaaaaaaaaaaaaa"))
      (auditColumns (row "key swordfish sk-aaaaaaaaaaaaaaaaaaaa")) := by
  have hplain : ∀ {key text : String}, Plain text → key = key ∧ (key ≠ "content_hash" →
      AlikeValue (backend "hunter2") (backend "swordfish") (.str text) (.str text)) :=
    fun h => ⟨rfl, fun _ => .text (apart_plain h)⟩
  have hnull : ∀ {key : String}, key = key ∧ (key ≠ "content_hash" →
      AlikeValue (backend "hunter2") (backend "swordfish") .null .null) := ⟨rfl, fun _ => .null⟩
  exact .cons (hplain (by decide +kernel)) <| .cons (hplain (by decide +kernel)) <|
    .cons (hplain (by decide +kernel)) <| .cons ⟨rfl, fun _ => .text apart_contents⟩ <|
    .cons (hplain (by decide +kernel)) <| .cons (hplain (by decide +kernel)) <|
    .cons hnull <| .cons hnull <| .cons hnull <|
    .cons (hplain (by decide +kernel)) <| .cons (hplain (by decide +kernel)) <|
    .cons ⟨rfl, fun _ => .int _⟩ <| .cons ⟨rfl, fun h => absurd rfl h⟩ <|
    .cons (hplain (by decide +kernel)) <| .cons ⟨rfl, fun _ => .bool _⟩ <|
    .cons (hplain (by decide +kernel)) .nil

theorem clear {secret : String} (hne : secret ≠ "")
    (h : Clear "[REDACTED CONFIGURED SECRET]".toList secret.toList) :
    (backend secret).scanner.ClearOfMarker := by
  intro s hs
  rw [orderedSecrets_eq hne] at hs
  obtain rfl := List.mem_singleton.1 hs
  exact h

theorem rows_alike : AlikeRows (backend "hunter2") (backend "swordfish") scope scope
    (store "key hunter2 sk-aaaaaaaaaaaaaaaaaaaa") (store "key swordfish sk-aaaaaaaaaaaaaaaaaaaa") :=
  .cons columns_alike .nil

end Token

namespace Overlap

def scanner : ThreatScanner := ⟨⟨fun _ _ => false, fun _ _ text => text⟩, ["abcd", "cdef"]⟩

theorem finds : scanner.regex.Finds fun _ _ => [] where
  sub_eq _ _ _ := rfl
  inText _ _ _ := trivial

end Overlap

end MemoryBackend

end Polaris
