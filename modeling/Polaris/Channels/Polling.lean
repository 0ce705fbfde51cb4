import Polaris.Channels.Calls
import Polaris.Library.PyText

namespace Polaris
open PyJson

def unicodeEncodeError : PyError := ⟨.other "UnicodeEncodeError", "surrogates not allowed"⟩

def encodeText (t : PyText) : Except PyError String := t.encode.elim (.error unicodeEncodeError) .ok

/-- What the canonical JSON text of an object is written of; `allow_nan` is looked at first. -/
def encodeObject (entries : List (PyText × RawJson)) : Except PyError (List (String × PyVal)) :=
  match RawJson.encodeEntries entries with
  | some es => .ok es
  | none =>
      .error (if RawJson.entriesFinite entries then unicodeEncodeError
        else ChannelStore.valueError "Out of range float values are not JSON compliant")

namespace ChannelStore
variable (store : ChannelStore)

/-- The digest that is stored with an object. -/
def payloadHash (entries : List (PyText × RawJson)) : Except PyError String := do
  let es ← encodeObject entries
  sha256Hex store.sha (dict es)

def rawUpdateId (update : List (PyText × RawJson)) : Except PyError ℤ :=
  match RawJson.get "update_id" update with
  | .int updateId =>
      if updateId < 0 then .error (valueError "Telegram update_id must be non-negative")
      else .ok updateId
  | _ => .error (valueError "Telegram update_id must be an integer")

theorem rawUpdateId_encode {update : List (PyText × RawJson)} {entries : List (String × PyVal)}
    (h : RawJson.encodeEntries update = some entries) :
    rawUpdateId update = requireUpdateId entries := by
  have hget := RawJson.get_encode "update_id" h
  unfold rawUpdateId requireUpdateId getOrNone
  cases hid : RawJson.get "update_id" update with
  | str t =>
      rw [hid, RawJson.encode, Option.map_eq_some_iff] at hget
      obtain ⟨s, -, hs⟩ := hget
      rw [← hs]
  | arr items =>
      rw [hid, RawJson.encode, Option.map_eq_some_iff] at hget
      obtain ⟨vs, -, hs⟩ := hget
      rw [← hs]
  | obj es =>
      rw [hid, RawJson.encode, Option.map_eq_some_iff] at hget
      obtain ⟨vs, -, hs⟩ := hget
      rw [← hs]
  | _ =>
      rw [hid, RawJson.encode] at hget
      rw [← Option.some.inj hget]

/-- The column of an offset holds whole numbers of 64 bits. -/
def integerLimit : ℤ := 2 ^ 63

/-- `ingest_telegram_update` on an update as it comes; the normalised one is not used before the
update has been hashed. -/
def ingestRawUpdate (update : List (PyText × RawJson)) (policy : AuthorizationPolicy)
    (streamKey : Option String) (a : Readings) : Op IngestResult := do
  let updateId ← Txn.lift (rawUpdateId update)
  let entries ← Txn.lift (encodeObject update)
  let _ ← Txn.lift (sha256Hex store.sha (dict entries))
  Txn.require (updateId + 1 < integerLimit)
    ⟨.overflowError, "Python int too large to convert to SQLite INTEGER"⟩
  ingestTelegramUpdate store entries (some policy) streamKey a

variable {store} {policy : AuthorizationPolicy} {streamKey : Option String} {a : Readings}
  {update : List (PyText × RawJson)}

theorem ingestRawUpdate_atomic : Txn.Atomic (ingestRawUpdate store update policy streamKey a) :=
  (Txn.lift_readOnly _).bind_atomic fun _ => (Txn.lift_readOnly _).bind_atomic fun entries =>
    (Txn.lift_readOnly _).bind_atomic fun _ => (Txn.require_readOnly _ _).bind_atomic fun _ =>
      @ChannelCall.perform_atomic store a _ (.ingestTelegramUpdate entries (some policy) streamKey)

/-- An update that cannot be hashed is not stored. -/
theorem ingestRawUpdate_of_hash_error {e : PyError} (h : payloadHash store update = .error e)
    (t : ChannelTables) : (ingestRawUpdate store update policy streamKey a t).2 = t := by
  rcases hr : ingestRawUpdate store update policy streamKey a t with ⟨e' | result, t'⟩
  · exact ingestRawUpdate_atomic.state hr
  · simp only [ingestRawUpdate, Txn.bind_ok, Txn.lift_ok] at hr
    obtain ⟨_, _, -, entries, _, ⟨hentries, -⟩, hash, _, ⟨hhash, -⟩, -⟩ := hr
    rw [payloadHash, hentries] at h
    exact absurd (hhash.symm.trans h) (by simp)

end ChannelStore

namespace Telegram

/-- What the poller remembers of the numbering of the updates. -/
structure PollState where
  epochOffset : Option ℤ
  probing : Bool

def telegramError (message : String) : PyError := ⟨.other "TelegramError", message⟩

def updateOf (item : RawJson) : Except PyError (ℤ × List (PyText × RawJson)) :=
  match item with
  | .obj update =>
      match RawJson.get "update_id" update with
      | .int updateId => .ok (updateId, update)
      | _ => .error (telegramError "Telegram getUpdates returned an update without an integer id")
  | _ => .error (telegramError "Telegram getUpdates returned a malformed update")

def updatesOf : RawJson → Except PyError (List (ℤ × List (PyText × RawJson)))
  | .arr items => items.mapM updateOf
  | _ => .error (telegramError "Telegram getUpdates returned an invalid update list")

/-- `sorted(updates, key=…)`, which is stable -/
def inOrder (updates : List (ℤ × List (PyText × RawJson))) : List (ℤ × List (PyText × RawJson)) :=
  updates.mergeSort fun x y => x.1 ≤ y.1

end Telegram

namespace ChannelStore
open Telegram
variable (store : ChannelStore)

def ingestAll (policy : AuthorizationPolicy) (streamKey : Option String) :
    List (ℤ × List (PyText × RawJson)) → (ℕ → Readings) → Op (List IngestResult)
  | [], _ => return []
  | (_, update) :: updates, a => do
      let result ← ingestRawUpdate store update policy streamKey (a 0)
      let results ← ingestAll policy streamKey updates fun n => a (n + 1)
      return result :: results

/-- What `poll_once` does with what `getUpdates` has answered; `a` holds the readings of the clock
of its calls, that of the new epoch first. -/
def pollOnce (policy : AuthorizationPolicy) (streamKey : Option String) (s : PollState)
    (answer : RawJson) (a : ℕ → Readings) : Op (List IngestResult × PollState) := do
  let updates ← Txn.lift (updatesOf answer)
  match (inOrder updates).head?, (inOrder updates).getLast? with
  | some first, some last => do
      match s.probing with
      | true => do
          let _ ← beginTelegramEpoch store first.1 streamKey (a 0)
          let results ← ingestAll store policy streamKey (inOrder updates) fun n => a (n + 1)
          return (results, ⟨some (last.1 + 1), false⟩)
      | false => do
          let results ← ingestAll store policy streamKey (inOrder updates) fun n => a (n + 1)
          return (results, ⟨s.epochOffset.map fun _ => last.1 + 1, false⟩)
  | _, _ => return ([], s)

end ChannelStore

end Polaris
