import Polaris.Library.LockedFile
import Polaris.Storage.SecretsCodec

namespace Polaris
open PyJson SortedDict

namespace SecretsFile

/-! Several processes that read and change the file. -/

inductive SecretsCall where
  | read (missingOk : Bool)
  | set (name value : String)
  | remove (name : String)

inductive SecretsAnswer where
  | values (values : List (String × String))
  | done
  | found (removed : Bool)
deriving DecidableEq

def missing (path : String) : PyError :=
  secretsError ("runtime secrets file does not exist at " ++ path)

def changedError : PyError :=
  secretsError "runtime secrets file changed while it was being opened"

namespace SecretsCall

def run (path : String) : SecretsCall → Op SecretsAnswer
  | .read missingOk => do
      let file ← Txn.read id
      Txn.require (file.isSome || missingOk) (missing path)
      return .values (← SecretsFile.read)
  | .set name value => do
      SecretsFile.set name value
      return .done
  | .remove name => do
      return .found (← SecretsFile.remove name)

def isRead : SecretsCall → Bool
  | .read _ => true
  | _ => false

/-- The names and values that are refused before the lock is taken. -/
def refuse : SecretsCall → Option PyError
  | .read _ => none
  | .set name value =>
      match validateSecretName name.toList, validateSecretValue value.toList with
      | .error e, _ => some e
      | .ok _, .error e => some e
      | .ok _, .ok _ => none
  | .remove name =>
      match validateSecretName name.toList with
      | .error e => some e
      | .ok _ => none

/-- The calls whose answer comes after a new file has taken the place of the old. -/
def writes : SecretsCall → Except PyError SecretsAnswer → Bool
  | .set _ _, .ok _ => true
  | .remove _, .ok (.found true) => true
  | _, _ => false

end SecretsCall

def bytesOf (file : Option (List UInt8)) : Option ByteArray :=
  file.map fun bytes => ⟨bytes.toArray⟩

def listOf (file : Option ByteArray) : Option (List UInt8) :=
  file.map fun bytes => bytes.data.toList

@[simp] theorem bytesOf_listOf (file : Option ByteArray) : bytesOf (listOf file) = file := by
  cases file <;> rfl

def plan (path : String) (c : SecretsCall) (file : Option (List UInt8)) :
    Except PyError SecretsAnswer × Option (List UInt8) :=
  let outcome := c.run path (bytesOf file)
  (outcome.1, if c.writes outcome.1 then listOf outcome.2 else none)

variable {path name value : String} {missingOk : Bool} {file after : Option ByteArray}
  {values : List (String × String)} {c : SecretsCall}

theorem read_readOnly (path : String) (missingOk : Bool) :
    Txn.ReadOnly ((SecretsCall.read missingOk).run path) := by
  refine (Txn.read_readOnly _).bind fun _ => (Txn.require_readOnly _ _).bind fun _ => ?_
  refine Txn.ReadOnly.bind (fun file => ?_) fun _ => Txn.pure_readOnly _
  rw [read_run]

theorem write_some {u : Unit} (h : write values file = (.ok u, after)) : after.isSome = true := by
  obtain ⟨payload, _, -, hwrite⟩ := Txn.bind_ok.1 h
  obtain rfl := Txn.write_ok.1 hwrite
  rfl

theorem set_some {u : Unit} (h : set name value file = (.ok u, after)) : after.isSome = true := by
  obtain ⟨_, _, -, h⟩ := Txn.bind_ok.1 h
  obtain ⟨_, _, -, h⟩ := Txn.bind_ok.1 h
  obtain ⟨_, _, -, h⟩ := Txn.bind_ok.1 h
  exact write_some h

theorem remove_some (h : remove name file = (.ok true, after)) : after.isSome = true := by
  obtain ⟨_, _, -, h⟩ := Txn.bind_ok.1 h
  obtain ⟨_, _, -, h⟩ := Txn.bind_ok.1 h
  split at h
  · simp at h
  · obtain ⟨_, _, hwrite, h⟩ := Txn.bind_ok.1 h
    obtain ⟨-, rfl⟩ := Txn.pure_ok.1 h
    exact write_some hwrite

theorem remove_absent (h : remove name file = (.ok false, after)) : after = file := by
  obtain ⟨_, _, hname, h⟩ := Txn.bind_ok.1 h
  obtain ⟨-, rfl⟩ := Txn.lift_ok.1 hname
  obtain ⟨values, _, hread, h⟩ := Txn.bind_ok.1 h
  obtain rfl := congrArg Prod.snd ((read_run file).symm.trans hread)
  split at h
  · exact (Txn.pure_ok.1 h).2.symm
  · obtain ⟨_, _, -, h⟩ := Txn.bind_ok.1 h
    simp at h

/-- A call changes the file where its answer says so, and only there. -/
theorem run_writes (path : String) (c : SecretsCall) (file : Option ByteArray) :
    (c.writes (c.run path file).1 = true → (c.run path file).2.isSome = true) ∧
    (c.writes (c.run path file).1 = false → (c.run path file).2 = file) := by
  cases c with
  | read missingOk =>
      exact ⟨fun h => by simp [SecretsCall.writes] at h, fun _ => read_readOnly path missingOk file⟩
  | set name value =>
      cases h : set name value file with
      | mk r after =>
          cases r with
          | ok u =>
              have hrun : (SecretsCall.set name value).run path file = (.ok .done, after) :=
                Txn.bind_of_ok h
              rw [hrun]
              exact ⟨fun _ => set_some h, fun hfalse => by simp [SecretsCall.writes] at hfalse⟩
          | error e =>
              have hrun : (SecretsCall.set name value).run path file = (.error e, after) :=
                Txn.bind_of_error h
              rw [hrun]
              exact ⟨fun htrue => by simp [SecretsCall.writes] at htrue, fun _ => set_error h⟩
  | remove name =>
      cases h : remove name file with
      | mk r after =>
          cases r with
          | ok removed =>
              have hrun : (SecretsCall.remove name).run path file = (.ok (.found removed), after) :=
                Txn.bind_of_ok h
              rw [hrun]
              cases removed with
              | true =>
                  exact ⟨fun _ => remove_some h,
                    fun hfalse => by simp [SecretsCall.writes] at hfalse⟩
              | false =>
                  exact ⟨fun htrue => by simp [SecretsCall.writes] at htrue,
                    fun _ => remove_absent h⟩
          | error e =>
              have hrun : (SecretsCall.remove name).run path file = (.error e, after) :=
                Txn.bind_of_error h
              rw [hrun]
              exact ⟨fun htrue => by simp [SecretsCall.writes] at htrue, fun _ => remove_error h⟩

theorem run_refused {e : PyError} (h : c.refuse = some e) (path : String)
    (file : Option ByteArray) : c.run path file = (.error e, file) := by
  cases c with
  | read missingOk => simp [SecretsCall.refuse] at h
  | set name value =>
      simp only [SecretsCall.refuse] at h
      refine Txn.bind_of_error ?_
      cases hname : validateSecretName name.toList with
      | error e' =>
          simp only [hname, Option.some.injEq] at h
          subst h
          refine Txn.bind_of_error ?_
          rw [hname]
          rfl
      | ok u =>
          cases hvalue : validateSecretValue value.toList with
          | error e' =>
              simp only [hname, hvalue, Option.some.injEq] at h
              subst h
              refine (Txn.bind_of_ok (a := u) (by rw [hname]; rfl)).trans (Txn.bind_of_error ?_)
              rw [hvalue]
              rfl
          | ok u => simp [hname, hvalue] at h
  | remove name =>
      simp only [SecretsCall.refuse] at h
      refine Txn.bind_of_error ?_
      cases hname : validateSecretName name.toList with
      | error e' =>
          simp only [hname, Option.some.injEq] at h
          subst h
          refine Txn.bind_of_error ?_
          rw [hname]
          rfl
      | ok u => simp [hname] at h

/-- The calls of the processes that share the file. -/
def calls (path : String) : LockedFile.Calls SecretsCall (Except PyError SecretsAnswer) UInt8 where
  isRead := SecretsCall.isRead
  refuse c := c.refuse.map .error
  plan := plan path
  changed := .error changedError
  plan_read c file hread := by
    cases c with
    | read missingOk => simp [plan, SecretsCall.writes]
    | set name value => simp [SecretsCall.isRead] at hread
    | remove name => simp [SecretsCall.isRead] at hread
  plan_refuse c file r hrefuse := by
    obtain ⟨e, he, rfl⟩ := Option.map_eq_some_iff.1 hrefuse
    rw [plan, run_refused he]
    cases c <;> simp [SecretsCall.writes]

theorem effect_calls (path : String) (file : Option ByteArray) (c : SecretsCall) :
    LockedFile.effect (calls path) (listOf file) c = listOf (c.run path file).2 := by
  obtain ⟨hsome, hsame⟩ := run_writes path c file
  simp only [LockedFile.effect, calls, plan, bytesOf_listOf]
  cases hwrites : c.writes (c.run path file).1 with
  | true =>
      obtain ⟨payload, hpayload⟩ := Option.isSome_iff_exists.1 (hsome hwrites)
      simp [hpayload, listOf]
  | false => simp [hsame hwrites]

/-- What the calls leave that are made one after the other. -/
def sequential {ι : Type} (path : String) (callOf : ι → SecretsCall) (first : Option ByteArray)
    (log : List ι) : Option ByteArray :=
  log.foldl (fun file i => ((callOf i).run path file).2) first

theorem valueAt_calls {ι : Type} (path : String) (callOf : ι → SecretsCall)
    (first : Option ByteArray) (log : List ι) :
    LockedFile.valueAt (calls path) callOf (listOf first) log =
      listOf (sequential path callOf first log) := by
  induction log generalizing first with
  | nil => rfl
  | cons i log ih =>
      rw [LockedFile.valueAt, List.foldl_cons, effect_calls]
      exact ih _

theorem plan_sequential {ι : Type} {path : String} {callOf : ι → SecretsCall}
    {first : Option ByteArray} {log : List ι} {c : SecretsCall}
    {r : Except PyError SecretsAnswer} {payload : Option (List UInt8)}
    (h : plan path c (LockedFile.valueAt (calls path) callOf (listOf first) log) = (r, payload)) :
    (c.run path (sequential path callOf first log)).1 = r ∧
      (payload = none → (c.run path (sequential path callOf first log)).2 =
        sequential path callOf first log) := by
  rw [valueAt_calls, plan, bytesOf_listOf] at h
  obtain ⟨hanswer, hpayload⟩ := Prod.mk.inj h
  refine ⟨hanswer, fun hnone => ?_⟩
  obtain ⟨hsome, hsame⟩ := run_writes path c (sequential path callOf first log)
  refine hsame (Bool.eq_false_iff.2 fun hwrites => ?_)
  obtain ⟨after, hafter⟩ := Option.isSome_iff_exists.1 (hsome hwrites)
  simp [hwrites, hafter, listOf, hnone] at hpayload

theorem sequential_take {ι : Type} {path : String} {callOf : ι → SecretsCall}
    {first : Option ByteArray} {log : List ι} {n : ℕ} {i : ι} (h : log[n]? = some i) :
    sequential path callOf first (log.take (n + 1)) =
      ((callOf i).run path (sequential path callOf first (log.take n))).2 := by
  rw [sequential, List.take_add_one, h, List.foldl_append]
  rfl

/-- The calls of the processes, however their steps come between each other and wherever they fail,
are made one after the other: each replacement of the file is one call, each answer is that of its
call there, and a reader has read the whole of the file that one of them left. -/
theorem updates_linearizable {ι : Type} [DecidableEq ι] (path : String) (callOf : ι → SecretsCall)
    (first : Option ByteArray) (s : LockedFile.Reached (calls path) callOf (listOf first)) :
    bytesOf s.1.file = sequential path callOf first s.1.log ∧ s.1.log.Nodup ∧
    ∀ i r, s.1.phase i = .ended r →
      (∃ n, s.1.began i ≤ n ∧ s.1.log[n]? = some i ∧
        (callOf i).run path (sequential path callOf first (s.1.log.take n)) =
          (r, sequential path callOf first (s.1.log.take (n + 1)))) ∨
      i ∉ s.1.log ∧
        ((∃ n, s.1.began i ≤ n ∧ n ≤ s.1.log.length ∧
          (callOf i).run path (sequential path callOf first (s.1.log.take n)) =
            (r, sequential path callOf first (s.1.log.take n))) ∨
        (callOf i).isRead = true ∧ r = .error changedError) := by
  obtain ⟨hfile, hnodup, -, hok⟩ := s.invariant
  refine ⟨by rw [hfile, valueAt_calls, bytesOf_listOf], hnodup, fun i r hended => ?_⟩
  have hi := hok i
  rw [hended] at hi
  rcases hi with ⟨n, payload, hbegan, hlog, hplan⟩ | ⟨hnot, ⟨file, ⟨n, hbegan, hle, rfl⟩, hplan⟩ |
    hchanged⟩
  · refine .inl ⟨n, hbegan, hlog, ?_⟩
    rw [sequential_take hlog, ← (plan_sequential hplan).1]
  · obtain ⟨hanswer, hsame⟩ := plan_sequential hplan
    exact .inr ⟨hnot, .inl ⟨n, hbegan, hle, Prod.ext hanswer (hsame rfl)⟩⟩
  · exact .inr ⟨hnot, .inr hchanged⟩

end SecretsFile

end Polaris
