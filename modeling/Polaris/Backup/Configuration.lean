import Mathlib.Data.List.Lex
import Polaris.Backup.ArchiveFormat

namespace Polaris.BackupConfig
open PyJson SortedDict BackupArchive

/-! A value by its places. -/

inductive Step where
  | key (k : PyText)
  | index (i : ℕ)
deriving DecidableEq

/-- What is at a place itself, without what is in it. -/
inductive Head where
  | null
  | bool (b : Bool)
  | int (n : ℤ)
  | float (f : PyFloat)
  | str (t : PyText)
  | array (length : ℕ)
  | object
deriving DecidableEq

def head : RawJson → Head
  | .null => .null
  | .bool b => .bool b
  | .int n => .int n
  | .float f => .float f
  | .str t => .str t
  | .arr items => .array items.length
  | .obj _ => .object

def child : Step → RawJson → Option RawJson
  | .key k, .obj entries => lookup k entries
  | .index i, .arr items => items[i]?
  | _, _ => none

def headAt : List Step → RawJson → Option Head
  | [], v => some (head v)
  | step :: path, v => (child step v).bind (headAt path)

mutual
/-- What is at every place can be held, and no key comes twice. -/
def isReadable (held : Head → Bool) : RawJson → Bool
  | .arr items => itemsReadable held items
  | .obj entries => decide (entries.map Prod.fst).Nodup && entriesReadable held entries
  | v => held (head v)
def itemsReadable (held : Head → Bool) : List RawJson → Bool
  | [] => true
  | x :: xs => isReadable held x && itemsReadable held xs
def entriesReadable (held : Head → Bool) : List (PyText × RawJson) → Bool
  | [] => true
  | (k, x) :: es => held (.str k) && isReadable held x && entriesReadable held es
end

/-- Why a file is not read; only a `JSONDecodeError` or a `UnicodeDecodeError` is caught. -/
inductive Unread where
  | decodeError (exc : PyText)
  | valueError

/-- How `json` writes a value to a file, indented and in the order of its keys, and reads a file.
Two surrogates next to each other are read as one character, and whole numbers that are too long
are not read; neither are they ever read from a file. -/
structure ConfigText where
  held : Head → Bool
  dumps : RawJson → Bytes
  loads : Bytes → Except Unread RawJson
  held_text : ∀ s, held (.str (PyText.ofString s)) = true
  readable_of_loads : ∀ bytes v, loads bytes = .ok v → isReadable held v = true
  loads_dumps : ∀ v, isReadable held v = true →
    ∃ w, loads (dumps v) = .ok w ∧ ∀ path, headAt path w = headAt path v

/-- A path as text that a file can hold. -/
structure ConfigText.Path (json : ConfigText) where
  text : PyText
  held : json.held (.str text) = true

/-! What is left out of a configuration. -/

section
variable (lower : PyText → PyText)

def hyphen : CodePoint := CodePoint.ofChar '-'

def underscore : CodePoint := CodePoint.ofChar '_'

/-- `str(key).lower().replace("-", "_")` -/
def lowered (key : PyText) : PyText :=
  (lower key).map fun c => if c = hyphen then underscore else c

def secretKeys : List String :=
  ["api_key", "api_token", "bearer_token", "password", "secret", "token"]

def isSecret (key : PyText) : Bool := lowered lower key ∈ secretKeys.map PyText.ofString

def isHeaders (key : PyText) : Bool := lowered lower key = PyText.ofString "headers"

def credentialHeaders : List String := ["authorization", "api-key", "x-api-key"]

def isCredential (header : PyText) : Bool :=
  lower header ∈ credentialHeaders.map PyText.ofString

mutual
/-- `_sanitize_config`; an object under a key for headers first loses its credentials. -/
def sanitize (headers : Bool) : RawJson → RawJson
  | .obj entries => .obj (sanitizeEntries headers entries)
  | .arr items => .arr (sanitizeItems items)
  | v => v
def sanitizeItems : List RawJson → List RawJson
  | [] => []
  | x :: xs => sanitize false x :: sanitizeItems xs
def sanitizeEntries (headers : Bool) : List (PyText × RawJson) → List (PyText × RawJson)
  | [] => []
  | (key, item) :: es =>
      if headers && isCredential lower key || isSecret lower key then sanitizeEntries headers es
      else (key, sanitize (isHeaders lower key) item) :: sanitizeEntries headers es
end

def sanitizeConfig (v : RawJson) : RawJson := sanitize lower false v

/-- The place is left out, or in what is. -/
def isHidden (headers : Bool) : List Step → Bool
  | [] => false
  | .key k :: path =>
      headers && isCredential lower k || isSecret lower k || isHidden (isHeaders lower k) path
  | .index _ :: path => isHidden false path

variable {lower} {headers : Bool}

theorem lookup_sanitizeEntries (k : PyText) (es : List (PyText × RawJson)) :
    lookup k (sanitizeEntries lower headers es) =
      if headers && isCredential lower k || isSecret lower k then none
      else (lookup k es).map (sanitize lower (isHeaders lower k)) := by
  induction es with
  | nil => simp [sanitizeEntries, lookup]
  | cons e es ih =>
      obtain ⟨key, item⟩ := e
      rw [sanitizeEntries]
      by_cases hkey : k = key
      · subst hkey
        split
        · rename_i hdropped
          rw [ih, if_pos hdropped]
        · rw [lookup, if_pos rfl, lookup, if_pos rfl, Option.map_some]
      · split
        · rw [ih, lookup, if_neg hkey]
        · rw [lookup, if_neg hkey, ih, lookup, if_neg hkey]

theorem sanitizeItems_eq (xs : List RawJson) :
    sanitizeItems lower xs = xs.map (sanitize lower false) := by
  induction xs with
  | nil => rfl
  | cons x xs ih => rw [sanitizeItems, ih, List.map_cons]

theorem head_sanitize (v : RawJson) : head (sanitize lower headers v) = head v := by
  cases v <;> simp [sanitize, head, sanitizeItems_eq]

/-- Every place that is not left out holds what it held. -/
theorem headAt_sanitize (path : List Step) (v : RawJson) :
    headAt path (sanitize lower headers v) =
      if isHidden lower headers path then none else headAt path v := by
  induction path generalizing headers v with
  | nil => simp [headAt, isHidden, head_sanitize]
  | cons step path ih =>
      cases step with
      | key k =>
          cases v with
          | obj entries =>
              have hstep : isHidden lower headers (.key k :: path) =
                  (headers && isCredential lower k || isSecret lower k ||
                    isHidden lower (isHeaders lower k) path) := rfl
              rw [hstep]
              simp only [headAt, sanitize, child, lookup_sanitizeEntries]
              by_cases hdrop : (headers && isCredential lower k || isSecret lower k) = true
              · simp [hdrop]
              · simp only [Bool.eq_false_iff.2 hdrop, Bool.false_or, Bool.false_eq_true, if_false]
                cases lookup k entries with
                | none => simp
                | some item => exact ih item
          | _ => simp [headAt, sanitize, child]
      | index i =>
          cases v with
          | arr items =>
              simp only [headAt, sanitize, child, sanitizeItems_eq, List.getElem?_map]
              cases items[i]? with
              | none => simp
              | some item => exact ih item
          | _ => simp [headAt, sanitize, child]

theorem keys_sanitizeEntries (es : List (PyText × RawJson)) :
    ((sanitizeEntries lower headers es).map Prod.fst).Sublist (es.map Prod.fst) := by
  induction es with
  | nil => exact List.Sublist.refl _
  | cons e es ih =>
      obtain ⟨key, item⟩ := e
      rw [sanitizeEntries]
      split
      · exact ih.cons _
      · exact ih.cons_cons _

mutual
theorem sanitize_readable {held : Head → Bool} (headers : Bool) : ∀ v : RawJson,
    isReadable held v = true → isReadable held (sanitize lower headers v) = true
  | .null, h | .bool _, h | .int _, h | .float _, h | .str _, h => h
  | .arr items, h => itemsReadable_sanitize items h
  | .obj entries, h => by
      simp only [isReadable, Bool.and_eq_true, decide_eq_true_eq] at h
      simp only [sanitize, isReadable, Bool.and_eq_true, decide_eq_true_eq]
      exact ⟨h.1.sublist (keys_sanitizeEntries entries),
        entriesReadable_sanitize headers entries h.2⟩
theorem itemsReadable_sanitize {held : Head → Bool} : ∀ xs : List RawJson,
    itemsReadable held xs = true → itemsReadable held (sanitizeItems lower xs) = true
  | [], _ => rfl
  | x :: xs, h => by
      simp only [itemsReadable, Bool.and_eq_true] at h
      simp only [sanitizeItems, itemsReadable, Bool.and_eq_true]
      exact ⟨sanitize_readable false x h.1, itemsReadable_sanitize xs h.2⟩
theorem entriesReadable_sanitize {held : Head → Bool} (headers : Bool) :
    ∀ es : List (PyText × RawJson), entriesReadable held es = true →
      entriesReadable held (sanitizeEntries lower headers es) = true
  | [], _ => rfl
  | (key, item) :: es, h => by
      simp only [entriesReadable, Bool.and_eq_true] at h
      rw [sanitizeEntries]
      split
      · exact entriesReadable_sanitize headers es h.2
      · simp only [entriesReadable, Bool.and_eq_true]
        exact ⟨⟨h.1.1, sanitize_readable _ item h.1.2⟩, entriesReadable_sanitize headers es h.2⟩
end

end

/-! From the configuration that is exported to the one that is restored. -/

def dataDirKey : PyText := PyText.ofString "data_dir"

def daemonKey : PyText := PyText.ofString "daemon"

def tokenFileKey : PyText := PyText.ofString "token_file"

theorem daemonKey_ne : daemonKey ≠ dataDirKey := fun h =>
  absurd (PyText.ofString_injective h) (by simp)

def unread (message : String) : Unread → ArchiveError
  | .decodeError exc => .backupFormatError message exc
  | .valueError => .valueError

section
variable (json : ConfigText) (lower : PyText → PyText)

/-- `_stage_config`; there is no configuration to export where its file is missing or holds the
secrets. -/
def stageConfig (dataDir : PyText) : Option Bytes → Except ArchiveError Bytes
  | none => .ok (json.dumps (.obj [(dataDirKey, .str dataDir)]))
  | some bytes =>
      match json.loads bytes with
      | .error e => .error (unread "could not read configuration: " e)
      | .ok raw => .ok (json.dumps (sanitizeConfig lower raw))

def rewritten (dataDir tokenFile : PyText) (config : List (PyText × RawJson)) :
    List (PyText × RawJson) :=
  let config := setKey dataDirKey (.str dataDir) config
  match lookup daemonKey config with
  | some (.obj daemon) =>
      setKey daemonKey (.obj (setKey tokenFileKey (.str tokenFile) daemon)) config
  | _ => config

def rewriteConfig (dataDir tokenFile : PyText) (bytes : Bytes) : Except ArchiveError Bytes :=
  match json.loads bytes with
  | .error e => .error (unread "backup configuration is invalid: " e)
  | .ok (.obj config) => .ok (json.dumps (.obj (rewritten dataDir tokenFile config)))
  | .ok _ => .error (.backupFormatError "backup configuration must be a JSON object" [])

/-- The configuration of an export, in the state that is installed elsewhere. -/
def restoreConfig (oldDataDir dataDir tokenFile : PyText) (existing : Option Bytes) :
    Except ArchiveError Bytes :=
  match stageConfig json lower oldDataDir existing with
  | .error e => .error e
  | .ok staged => rewriteConfig json dataDir tokenFile staged

end

/-- What an export has at a place, by what the configuration's file is read as. -/
def exportedAt (lower : PyText → PyText) (oldDataDir : PyText) :
    Option RawJson → List Step → Option Head
  | none, path => headAt path (.obj [(dataDirKey, .str oldDataDir)])
  | some raw, path => if isHidden lower false path then none else headAt path raw

/-- What the restored configuration has at a place, by what the exported one has there. -/
def restoredAt (dataDir tokenFile : PyText) (exported : List Step → Option Head) :
    List Step → Option Head
  | .key k :: path =>
      if k = dataDirKey then headAt path (.str dataDir)
      else if k = daemonKey ∧ path.head? = some (.key tokenFileKey) ∧
          exported [.key daemonKey] = some .object then
        headAt path.tail (.str tokenFile)
      else exported (.key k :: path)
  | path => exported path

section
variable {dataDir tokenFile : PyText} {config : List (PyText × RawJson)}

theorem headAt_setKey (k : PyText) (v : RawJson) (path : List Step) :
    headAt path (.obj (setKey k v config)) =
      if path.head? = some (.key k) then headAt path.tail v else headAt path (.obj config) := by
  cases path with
  | nil => rfl
  | cons step path =>
      cases step with
      | index i => rfl
      | key l =>
          simp only [headAt, child, lookup_setKey, List.head?_cons, List.tail_cons,
            Option.some.injEq, Step.key.injEq]
          split <;> rfl

theorem object_of_head {v : RawJson} (h : head v = .object) : ∃ entries, v = .obj entries := by
  cases v <;> simp [head] at h ⊢

theorem headAt_key {k : PyText} : headAt [.key k] (.obj config) = (lookup k config).map head := by
  simp only [headAt, child]
  cases lookup k config <;> rfl

theorem rewritten_of_object {daemon : List (PyText × RawJson)}
    (h : lookup daemonKey config = some (.obj daemon)) :
    rewritten dataDir tokenFile config =
      setKey daemonKey (.obj (setKey tokenFileKey (.str tokenFile) daemon))
        (setKey dataDirKey (.str dataDir) config) := by
  simp only [rewritten, lookup_setKey, if_neg daemonKey_ne, h]

theorem rewritten_of_other (h : headAt [.key daemonKey] (.obj config) ≠ some .object) :
    rewritten dataDir tokenFile config = setKey dataDirKey (.str dataDir) config := by
  simp only [rewritten, lookup_setKey, if_neg daemonKey_ne]
  rw [headAt_key] at h
  cases hdaemon : lookup daemonKey config with
  | none => rfl
  | some v => cases v <;> simp_all [head]

theorem headAt_rewritten (path : List Step) :
    headAt path (.obj (rewritten dataDir tokenFile config)) =
      restoredAt dataDir tokenFile (fun path => headAt path (.obj config)) path := by
  cases path with
  | nil => rfl
  | cons step path =>
      cases step with
      | index i => rfl
      | key k =>
          rw [restoredAt]
          by_cases hobject : headAt [.key daemonKey] (.obj config) = some .object
          · have hhead := hobject
            rw [headAt_key, Option.map_eq_some_iff] at hhead
            obtain ⟨v, hdaemon, hv⟩ := hhead
            obtain ⟨daemon, rfl⟩ := object_of_head hv
            rw [rewritten_of_object hdaemon, headAt_setKey]
            by_cases hk : k = daemonKey
            · subst hk
              have hat : headAt (.key daemonKey :: path) (.obj config) =
                  headAt path (.obj daemon) := by simp [headAt, child, hdaemon]
              rw [List.head?_cons, if_pos rfl, if_neg daemonKey_ne, List.tail_cons, headAt_setKey,
                hat]
              simp [hobject]
            · rw [if_neg (by simpa using hk), headAt_setKey]
              simp [hk]
          · rw [rewritten_of_other hobject, headAt_setKey]
            simp [hobject]

theorem entriesReadable_iff {held : Head → Bool} {es : List (PyText × RawJson)} :
    entriesReadable held es = true ↔
      ∀ e ∈ es, held (.str e.1) = true ∧ isReadable held e.2 = true := by
  induction es with
  | nil => simp [entriesReadable]
  | cons e es ih =>
      obtain ⟨key, item⟩ := e
      simp [entriesReadable, ih]

theorem setKey_readable {held : Head → Bool} {k : PyText} {v : RawJson}
    (hk : held (.str k) = true) (hv : isReadable held v = true)
    (h : isReadable held (.obj config) = true) :
    isReadable held (.obj (setKey k v config)) = true := by
  simp only [isReadable, Bool.and_eq_true, decide_eq_true_eq, entriesReadable_iff] at h ⊢
  refine ⟨setKey_nodup k v h.1, fun e he => ?_⟩
  rcases mem_setKey he with rfl | he
  · exact ⟨hk, hv⟩
  · exact h.2 e he

end

section
variable {json : ConfigText} {lower : PyText → PyText} {oldDataDir dataDir tokenFile : json.Path}

theorem rewritten_readable (dataDir tokenFile : json.Path) {config : List (PyText × RawJson)}
    (h : isReadable json.held (.obj config) = true) :
    isReadable json.held (.obj (rewritten dataDir.text tokenFile.text config)) = true := by
  have hdir := setKey_readable (v := .str dataDir.text) (json.held_text "data_dir") dataDir.held h
  by_cases hobject : headAt [.key daemonKey] (.obj config) = some .object
  · rw [headAt_key, Option.map_eq_some_iff] at hobject
    obtain ⟨v, hdaemon, hv⟩ := hobject
    obtain ⟨daemon, rfl⟩ := object_of_head hv
    rw [rewritten_of_object hdaemon]
    simp only [isReadable, Bool.and_eq_true, decide_eq_true_eq, entriesReadable_iff] at h
    have hin := (h.2 _ (mem_of_lookup hdaemon)).2
    exact setKey_readable (json.held_text "daemon")
      (setKey_readable (v := .str tokenFile.text) (json.held_text "token_file") tokenFile.held hin)
      hdir
  · rw [rewritten_of_other hobject]
    exact hdir

/-- What the file of the configuration is read as. -/
def ConfigText.read (json : ConfigText) (bytes : Bytes) : Option RawJson :=
  match json.loads bytes with
  | .ok v => some v
  | .error _ => none

theorem ConfigText.read_eq_some {bytes : Bytes} {v : RawJson} :
    json.read bytes = some v ↔ json.loads bytes = .ok v := by
  rw [ConfigText.read]
  split
  · rename_i h
    rw [h, Option.some.injEq, Except.ok.injEq]
  · rename_i h
    simp [h]

theorem stageConfig_ok {existing : Option Bytes} {staged : Bytes}
    (h : stageConfig json lower oldDataDir.text existing = .ok staged) :
    ∃ w, json.loads staged = .ok w ∧
      ∀ path, headAt path w = exportedAt lower oldDataDir.text (existing.bind json.read) path := by
  cases existing with
  | none =>
      obtain rfl := Except.ok.inj h
      refine json.loads_dumps _ ?_
      simp [isReadable, entriesReadable, head, oldDataDir.held, dataDirKey, json.held_text]
  | some bytes =>
      simp only [stageConfig] at h
      cases hraw : json.loads bytes with
      | error e => simp [hraw] at h
      | ok raw =>
          simp only [hraw, Except.ok.injEq] at h
          obtain rfl := h
          have hreadable : isReadable json.held (sanitizeConfig lower raw) = true :=
            sanitize_readable false raw (json.readable_of_loads _ _ hraw)
          obtain ⟨w, hw, hsame⟩ := json.loads_dumps _ hreadable
          refine ⟨w, hw, fun path => ?_⟩
          rw [hsame, sanitizeConfig, headAt_sanitize, Option.bind_some,
            ConfigText.read_eq_some.2 hraw]
          rfl

theorem rewriteConfig_object (dataDir tokenFile : json.Path) {bytes : Bytes}
    {config : List (PyText × RawJson)} (h : json.loads bytes = .ok (.obj config)) :
    ∃ restored w, rewriteConfig json dataDir.text tokenFile.text bytes = .ok restored ∧
      json.loads restored = .ok w ∧ ∀ path, headAt path w =
        restoredAt dataDir.text tokenFile.text (fun path => headAt path (.obj config)) path := by
  obtain ⟨w, hw, hsame⟩ := json.loads_dumps _
    (rewritten_readable dataDir tokenFile (json.readable_of_loads _ _ h))
  refine ⟨_, w, by rw [rewriteConfig, h], hw, fun path => ?_⟩
  rw [hsame, headAt_rewritten]

theorem rewriteConfig_ok {bytes restored : Bytes}
    (h : rewriteConfig json dataDir.text tokenFile.text bytes = .ok restored) :
    ∃ config, json.loads bytes = .ok (.obj config) := by
  rw [rewriteConfig] at h
  split at h
  · simp at h
  · exact ⟨_, ‹_›⟩
  · simp at h

theorem exportedAt_root {existing : Option Bytes} {staged : Bytes}
    (h : stageConfig json lower oldDataDir.text existing = .ok staged) :
    exportedAt lower oldDataDir.text (existing.bind json.read) [] = some .object ↔
      ∀ bytes, existing = some bytes → ∃ entries, json.loads bytes = .ok (.obj entries) := by
  cases existing with
  | none => simp [exportedAt, headAt, head]
  | some bytes =>
      simp only [stageConfig] at h
      cases hraw : json.loads bytes with
      | error e => simp [hraw] at h
      | ok raw =>
          simp only [Option.bind_some, ConfigText.read_eq_some.2 hraw, exportedAt, isHidden, headAt,
            Option.some.injEq, forall_eq', hraw, Except.ok.injEq]
          cases raw <;> simp [head]

theorem stageConfig_error {existing : Option Bytes} {e : ArchiveError}
    (h : stageConfig json lower oldDataDir.text existing = .error e) :
    ∃ bytes unread, existing = some bytes ∧ json.loads bytes = .error unread := by
  cases existing with
  | none => simp [stageConfig] at h
  | some bytes =>
      simp only [stageConfig] at h
      split at h
      · exact ⟨bytes, _, rfl, ‹_›⟩
      · simp at h

end

end Polaris.BackupConfig
