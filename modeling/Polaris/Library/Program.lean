import Mathlib.Logic.Relation
import Mathlib.Tactic.Common

universe u

inductive Program (E : Type → Type u) (ε α : Type) : Type (max 1 u) where
  | done (r : Except ε α)
  | call {β : Type} (e : E β) (k : Except ε β → Program E ε α)

namespace Program
variable {E : Type → Type u} {ε α β : Type}

def andThen : Program E ε α → (Except ε α → Program E ε β) → Program E ε β
  | .done r, h => h r
  | .call e k, h => .call e fun r => (k r).andThen h

def perform (e : E α) : Program E ε α := .call e .done

def throw (e : ε) : Program E ε α := .done (.error e)

def ofExcept (r : Except ε α) : Program E ε α := .done r

def bind (p : Program E ε α) (f : α → Program E ε β) : Program E ε β :=
  p.andThen fun
    | .ok a => f a
    | .error e => .done (.error e)

instance : Monad (Program E ε) where
  pure a := .done (.ok a)
  bind := Program.bind

def attempt (p : Program E ε α) : Program E ε (Except ε α) := p.andThen fun r => .done (.ok r)

theorem bind_def (p : Program E ε α) (f : α → Program E ε β) :
    (p >>= f) = p.andThen fun
      | .ok a => f a
      | .error e => .done (.error e) := rfl

@[simp] theorem pure_bind (a : α) (f : α → Program E ε β) :
    ((pure a : Program E ε α) >>= f) = f a := rfl

@[simp] theorem ofExcept_ok_bind (a : α) (f : α → Program E ε β) :
    ((ofExcept (.ok a) : Program E ε α) >>= f) = f a := rfl

@[simp] theorem ofExcept_error_bind (e : ε) (f : α → Program E ε β) :
    ((ofExcept (.error e) : Program E ε α) >>= f) = .done (.error e) := rfl

theorem bind_pure (p : Program E ε α) : (p >>= fun a => pure a) = p := by
  induction p with
  | done r => cases r <;> rfl
  | call e k ih => exact congrArg (Program.call e) (funext fun q => ih q)

def CanReturn : Program E ε α → Except ε α → Prop
  | .done r, r' => r = r'
  | .call _ k, r' => ∃ a, (k a).CanReturn r'

def Performs (P : {β : Type} → E β → Prop) : Program E ε α → Prop
  | .done _ => False
  | .call e k => P e ∨ ∃ a, (k a).Performs P

section
variable {p : Program E ε α} {f : α → Program E ε β} {P : {β : Type} → E β → Prop}

theorem canReturn_andThen {h : Except ε α → Program E ε β} {r : Except ε β} :
    (p.andThen h).CanReturn r ↔ ∃ q, p.CanReturn q ∧ (h q).CanReturn r := by
  induction p with
  | done q => simp [Program.andThen, CanReturn]
  | call e k ih =>
      simp only [Program.andThen, CanReturn, ih]
      exact ⟨fun ⟨a, q, hq, hr⟩ => ⟨q, ⟨a, hq⟩, hr⟩, fun ⟨q, ⟨a, hq⟩, hr⟩ => ⟨a, q, hq, hr⟩⟩

theorem performs_andThen {h : Except ε α → Program E ε β} :
    (p.andThen h).Performs P ↔ p.Performs P ∨ ∃ q, p.CanReturn q ∧ (h q).Performs P := by
  induction p with
  | done q => simp [Program.andThen, Performs, CanReturn]
  | call e k ih =>
      simp only [Program.andThen, Performs, CanReturn, ih]
      constructor
      · rintro (he | ⟨a, ha | ⟨q, hq, hr⟩⟩)
        · exact .inl (.inl he)
        · exact .inl (.inr ⟨a, ha⟩)
        · exact .inr ⟨q, ⟨a, hq⟩, hr⟩
      · rintro ((he | ⟨a, ha⟩) | ⟨q, ⟨a, hq⟩, hr⟩)
        · exact .inl he
        · exact .inr ⟨a, .inl ha⟩
        · exact .inr ⟨a, .inr ⟨q, hq, hr⟩⟩

@[simp] theorem canReturn_bind_ok {b : β} :
    (p >>= f).CanReturn (.ok b) ↔ ∃ a, p.CanReturn (.ok a) ∧ (f a).CanReturn (.ok b) := by
  rw [bind_def, canReturn_andThen]
  constructor
  · rintro ⟨_ | a, ha, hb⟩
    · simp [CanReturn] at hb
    · exact ⟨a, ha, hb⟩
  · rintro ⟨a, ha, hb⟩
    exact ⟨.ok a, ha, hb⟩

@[simp] theorem performs_bind :
    (p >>= f).Performs P ↔ p.Performs P ∨ ∃ a, p.CanReturn (.ok a) ∧ (f a).Performs P := by
  rw [bind_def, performs_andThen]
  refine or_congr_right ⟨?_, fun ⟨a, ha, hP⟩ => ⟨.ok a, ha, hP⟩⟩
  rintro ⟨_ | a, ha, hP⟩
  · exact hP.elim
  · exact ⟨a, ha, hP⟩

@[simp] theorem canReturn_perform {e : E α} {r : Except ε α} : (perform e).CanReturn r :=
  ⟨r, rfl⟩

@[simp] theorem performs_perform {e : E α} :
    (perform e : Program E ε α).Performs P ↔ P e := by
  simp [perform, Performs]

@[simp] theorem canReturn_pure {a : α} {r : Except ε α} :
    (pure a : Program E ε α).CanReturn r ↔ .ok a = r := Iff.rfl

@[simp] theorem performs_pure {a : α} : ¬ (pure a : Program E ε α).Performs P := fun h => h

@[simp] theorem canReturn_ofExcept {r r' : Except ε α} :
    (ofExcept r : Program E ε α).CanReturn r' ↔ r = r' := Iff.rfl

@[simp] theorem performs_ofExcept {r : Except ε α} :
    ¬ (ofExcept r : Program E ε α).Performs P := fun h => h

@[simp] theorem canReturn_throw {e : ε} {r : Except ε α} :
    (throw e : Program E ε α).CanReturn r ↔ .error e = r := Iff.rfl

@[simp] theorem performs_throw {e : ε} : ¬ (throw e : Program E ε α).Performs P := fun h => h

@[simp] theorem canReturn_attempt {r : Except ε α} :
    p.attempt.CanReturn (.ok r) ↔ p.CanReturn r := by
  simp [attempt, canReturn_andThen, CanReturn]

@[simp] theorem performs_attempt : p.attempt.Performs P ↔ p.Performs P := by
  simp [attempt, performs_andThen, Performs]

end

def Only (P : {β : Type} → E β → Prop) : Program E ε α → Prop
  | .done _ => True
  | .call e k => P e ∧ ∀ a, (k a).Only P

section
variable {P Q : {β : Type} → E β → Prop} {p : Program E ε α}

theorem Only.mono (hp : p.Only P) (h : ∀ {β : Type} (e : E β), P e → Q e) : p.Only Q := by
  induction p with
  | done => trivial
  | call e k ih => exact ⟨h e hp.1, fun a => ih a (hp.2 a)⟩

theorem Only.not_performs (hp : p.Only P) (h : ∀ {β : Type} (e : E β), P e → ¬ Q e) :
    ¬ p.Performs Q := by
  induction p with
  | done => exact id
  | call e k ih =>
      rintro (he | ⟨a, ha⟩)
      · exact h e hp.1 he
      · exact ih a (hp.2 a) ha

theorem Only.andThen {f : Except ε α → Program E ε β} (hp : p.Only P) (hf : ∀ r, (f r).Only P) :
    (p.andThen f).Only P := by
  induction p with
  | done r => exact hf r
  | call e k ih => exact ⟨hp.1, fun a => ih a (hp.2 a)⟩

theorem Only.bind {f : α → Program E ε β} (hp : p.Only P) (hf : ∀ a, (f a).Only P) :
    (p >>= f).Only P := by
  refine hp.andThen fun r => ?_
  cases r with
  | ok a => exact hf a
  | error e => trivial

theorem only_pure (a : α) : (pure a : Program E ε α).Only P := trivial

theorem only_ofExcept (r : Except ε α) : (ofExcept r : Program E ε α).Only P := trivial

theorem only_throw (e : ε) : (throw e : Program E ε α).Only P := trivial

theorem only_perform {e : E α} (h : P e) : (perform e : Program E ε α).Only P :=
  ⟨h, fun _ => trivial⟩

theorem Only.attempt (hp : p.Only P) : p.attempt.Only P := hp.andThen fun _ => trivial

end

/-- The program makes no bad call and ends with a value that `Q` describes, as long as its calls do
not fail. -/
def Calm (bad : {β : Type} → E β → Prop) (Q : α → Prop) : Program E ε α → Prop
  | .done r => ∃ a, r = .ok a ∧ Q a
  | .call e k => ¬ bad e ∧ ∀ a, (k (.ok a)).Calm bad Q

/-- The program is calm from each call on whose answer is one that `met` describes. -/
def Yields (met : {β : Type} → E β → β → Prop) (bad : {β : Type} → E β → Prop) (Q : α → Prop) :
    Program E ε α → Prop
  | .done _ => True
  | .call e k => (∀ r, (k r).Yields met bad Q) ∧ ∀ a, met e a → (k (.ok a)).Calm bad Q

section
variable {met : {β : Type} → E β → β → Prop} {bad : {β : Type} → E β → Prop} {p : Program E ε α}
  {Q : α → Prop} {f : α → Program E ε β} {Q' : β → Prop}

theorem Calm.bind (hp : p.Calm bad Q) (hf : ∀ a, Q a → (f a).Calm bad Q') :
    (p >>= f).Calm bad Q' := by
  induction p with
  | done r =>
      obtain ⟨a, rfl, ha⟩ := hp
      exact hf a ha
  | call e k ih => exact ⟨hp.1, fun a => ih (.ok a) (hp.2 a)⟩

theorem calm_pure {a : α} (h : Q a) : (pure a : Program E ε α).Calm bad Q := ⟨a, rfl, h⟩

theorem calm_perform {e : E α} (h : ¬ bad e) :
    (perform e : Program E ε α).Calm bad fun _ => True := ⟨h, fun a => ⟨a, rfl, trivial⟩⟩

theorem Yields.bind (hp : p.Yields met bad Q) (hf : ∀ a, (f a).Yields met bad Q')
    (hcalm : ∀ a, Q a → (f a).Calm bad Q') : (p >>= f).Yields met bad Q' := by
  induction p with
  | done r =>
      cases r with
      | ok a => exact hf a
      | error e => trivial
  | call e k ih => exact ⟨fun r => ih r (hp.1 r), fun a ha => (hp.2 a ha).bind hcalm⟩

theorem Yields.of_only (hp : p.Only fun e => ∀ a, ¬ met e a) : p.Yields met bad Q := by
  induction p with
  | done r => trivial
  | call e k ih => exact ⟨fun r => ih r (hp.2 r), fun a ha => absurd ha (hp.1 a)⟩

/-- A first part in which nothing can be met. -/
theorem Only.yields_bind (hp : p.Only fun e => ∀ a, ¬ met e a)
    (hf : ∀ a, (f a).Yields met bad Q') : (p >>= f).Yields met bad Q' :=
  Yields.bind (Q := fun _ => False) (.of_only hp) hf fun _ h => h.elim

end

structure System (E : Type → Type u) (ε W : Type) where
  exec : {β : Type} → E β → W → Except ε β → W → Prop
  env : W → W → Prop

variable {W : Type}

structure Rules (S : System E ε W) where
  inv : W → Prop
  guard : {β : Type} → E β → W → Prop
  env_inv : ∀ {w w'}, inv w → S.env w w' → inv w'
  exec_inv : ∀ {β : Type} {e : E β} {w r w'}, inv w → guard e w → S.exec e w r w' → inv w'

/-- A run of the program from its beginning to its end that nothing interrupts. -/
inductive Runs (S : System E ε W) : Program E ε α → W → Except ε α → W → Prop
  | done {r : Except ε α} {w : W} : Runs S (.done r) w r w
  | call {β : Type} {e : E β} {k : Except ε β → Program E ε α} {q : Except ε β} {r : Except ε α}
      {w w' w'' : W} : S.exec e w q w' → Runs S (k q) w' r w'' → Runs S (.call e k) w r w''

theorem Runs.mono {S T : System E ε W} {p : Program E ε α} {r : Except ε α} {w w' : W}
    (hexec : ∀ {β : Type} {e : E β} {w q w'}, S.exec e w q w' → T.exec e w q w')
    (h : Runs S p w r w') : Runs T p w r w' := by
  induction h with
  | done => exact .done
  | call hcall _ ih => exact .call (hexec hcall) ih

/-- A run of the program that ends before a call of it, or at its own end. -/
inductive Halts (S : System E ε W) : Program E ε α → W → W → Prop
  | here {p : Program E ε α} {w : W} : Halts S p w w
  | call {β : Type} {e : E β} {k : Except ε β → Program E ε α} {q : Except ε β} {w w' w'' : W} :
      S.exec e w q w' → Halts S (k q) w' w'' → Halts S (.call e k) w w''

section
variable {S : System E ε W} {p : Program E ε α} {r : Except ε α} {w w' : W}

@[simp] theorem runs_done {q : Except ε α} : Runs S (.done q) w r w' ↔ q = r ∧ w = w' := by
  constructor
  · rintro ⟨⟩
    exact ⟨rfl, rfl⟩
  · rintro ⟨rfl, rfl⟩
    exact .done

@[simp] theorem halts_done {q : Except ε α} : Halts S (.done q) w w' ↔ w = w' := by
  constructor
  · rintro ⟨⟩
    rfl
  · rintro rfl
    exact .here

theorem Runs.halts (h : Runs S p w r w') : Halts S p w w' := by
  induction h with
  | done => exact .here
  | call hexec _ ih => exact .call hexec ih

theorem runs_andThen {h : Except ε α → Program E ε β} {r : Except ε β} :
    Runs S (p.andThen h) w r w' ↔ ∃ q v, Runs S p w q v ∧ Runs S (h q) v r w' := by
  constructor
  · intro hrun
    induction p generalizing w with
    | done q => exact ⟨q, w, .done, hrun⟩
    | call e k ih =>
        cases hrun with
        | call hexec hrest =>
            obtain ⟨q, v, hq, hv⟩ := ih _ hrest
            exact ⟨q, v, .call hexec hq, hv⟩
  · rintro ⟨q, v, hq, hv⟩
    induction hq with
    | done => exact hv
    | call hexec _ ih => exact .call hexec (ih hv)

theorem halts_andThen {h : Except ε α → Program E ε β} :
    Halts S (p.andThen h) w w' ↔
      Halts S p w w' ∨ ∃ q v, Runs S p w q v ∧ Halts S (h q) v w' := by
  constructor
  · intro hhalts
    induction p generalizing w with
    | done q => exact .inr ⟨q, w, .done, hhalts⟩
    | call e k ih =>
        cases hhalts with
        | here => exact .inl .here
        | call hexec hrest =>
            rcases ih _ hrest with hrest | ⟨q, v, hq, hv⟩
            · exact .inl (.call hexec hrest)
            · exact .inr ⟨q, v, .call hexec hq, hv⟩
  · rintro (hhalts | ⟨q, v, hq, hv⟩)
    · induction hhalts with
      | here => exact .here
      | call hexec _ ih => exact .call hexec ih
    · induction hq with
      | done => exact hv
      | call hexec _ ih => exact .call hexec (ih hv)

theorem runs_bind {f : α → Program E ε β} {r : Except ε β} : Runs S (p >>= f) w r w' ↔
    (∃ a v, Runs S p w (.ok a) v ∧ Runs S (f a) v r w') ∨
      ∃ e, r = .error e ∧ Runs S p w (.error e) w' := by
  rw [bind_def, runs_andThen]
  constructor
  · rintro ⟨e | a, v, hq, hv⟩
    · obtain ⟨rfl, rfl⟩ := runs_done.1 hv
      exact .inr ⟨e, rfl, hq⟩
    · exact .inl ⟨a, v, hq, hv⟩
  · rintro (⟨a, v, hq, hv⟩ | ⟨e, rfl, hq⟩)
    · exact ⟨.ok a, v, hq, hv⟩
    · exact ⟨.error e, w', hq, .done⟩

theorem runs_ofExcept_bind {x : Except ε α} {f : α → Program E ε β} {b : β} :
    Runs S (ofExcept x >>= f) w (.ok b) w' ↔ ∃ a, x = .ok a ∧ Runs S (f a) w (.ok b) w' := by
  cases x with
  | ok a => simp
  | error e => simp

theorem runs_attempt {q : Except ε (Except ε α)} :
    Runs S p.attempt w q w' ↔ ∃ r, q = .ok r ∧ Runs S p w r w' := by
  constructor
  · intro h
    obtain ⟨r, v, hr, hdone⟩ := runs_andThen.1 h
    obtain ⟨rfl, rfl⟩ := runs_done.1 hdone
    exact ⟨r, rfl, hr⟩
  · rintro ⟨r, rfl, hr⟩
    exact runs_andThen.2 ⟨r, w', hr, .done⟩

theorem halts_bind {f : α → Program E ε β} : Halts S (p >>= f) w w' ↔
    Halts S p w w' ∨ ∃ a v, Runs S p w (.ok a) v ∧ Halts S (f a) v w' := by
  rw [bind_def, halts_andThen]
  constructor
  · rintro (hhalts | ⟨e | a, v, hq, hv⟩)
    · exact .inl hhalts
    · obtain rfl := halts_done.1 hv
      exact .inl hq.halts
    · exact .inr ⟨a, v, hq, hv⟩
  · rintro (hhalts | ⟨a, v, hq, hv⟩)
    · exact .inl hhalts
    · exact .inr ⟨.ok a, v, hq, hv⟩

@[simp] theorem runs_perform {e : E α} : Runs S (perform e) w r w' ↔ S.exec e w r w' := by
  constructor
  · intro h
    cases h with
    | call hexec hrest =>
        obtain ⟨rfl, rfl⟩ := runs_done.1 hrest
        exact hexec
  · exact fun h => .call h .done

@[simp] theorem halts_perform {e : E α} :
    Halts S (perform e : Program E ε α) w w' ↔ w = w' ∨ ∃ r, S.exec e w r w' := by
  constructor
  · intro h
    cases h with
    | here => exact .inl rfl
    | call hexec hrest =>
        obtain rfl := halts_done.1 hrest
        exact .inr ⟨_, hexec⟩
  · rintro (rfl | ⟨r, hexec⟩)
    · exact .here
    · exact .call hexec .here

/-- A program whose calls can all be made runs to its end. -/
theorem Only.exists_runs {P : {β : Type} → E β → Prop} (hp : p.Only P)
    (hexec : ∀ {β : Type} (e : E β) (w : W), P e → ∃ q w', S.exec e w q w') :
    ∃ r w', Runs S p w r w' := by
  induction p generalizing w with
  | done r => exact ⟨r, w, .done⟩
  | call e k ih =>
      obtain ⟨q, v, hq⟩ := hexec e w hp.1
      obtain ⟨r, w', hrest⟩ := ih q (hp.2 q) (w := v)
      exact ⟨r, w', .call hq hrest⟩

end

variable {S : System E ε W} (R : Rules S)

def Safe : Program E ε α → (Except ε α → W → Prop) → W → Prop
  | .done r, Q, w => Q r w
  | .call e k, Q, w => ∀ w₁, Relation.ReflTransGen S.env w w₁ → R.inv w₁ →
      R.guard e w₁ ∧ ∀ r w₂, S.exec e w₁ r w₂ → R.inv w₂ → Safe (k r) Q w₂

variable {R} {p : Program E ε α} {Q Q' : Except ε α → W → Prop} {w w' : W}

theorem Safe.mono (hp : Safe R p Q w) (hw : R.inv w)
    (h : ∀ r w', R.inv w' → Q r w' → Q' r w') : Safe R p Q' w := by
  induction p generalizing w with
  | done r => exact h r w hw hp
  | call e k ih =>
      intro w₁ henv hinv
      obtain ⟨hguard, hnext⟩ := hp w₁ henv hinv
      exact ⟨hguard, fun r w₂ hexec hinv₂ => ih r (hnext r w₂ hexec hinv₂) hinv₂⟩

theorem Safe.andThen {h : Except ε α → Program E ε β} {Q' : Except ε β → W → Prop}
    (hp : Safe R p Q w) (hw : R.inv w)
    (hnext : ∀ r w', R.inv w' → Q r w' → Safe R (h r) Q' w') : Safe R (p.andThen h) Q' w := by
  induction p generalizing w with
  | done r => exact hnext r w hw hp
  | call e k ih =>
      intro w₁ henv hinv
      obtain ⟨hguard, hrest⟩ := hp w₁ henv hinv
      exact ⟨hguard, fun r w₂ hexec hinv₂ => ih r (hrest r w₂ hexec hinv₂) hinv₂⟩

theorem Safe.bind {f : α → Program E ε β} {Q' : Except ε β → W → Prop}
    (hp : Safe R p Q w) (hw : R.inv w)
    (hok : ∀ a w', R.inv w' → Q (.ok a) w' → Safe R (f a) Q' w')
    (herror : ∀ e w', R.inv w' → Q (.error e) w' → Q' (.error e) w') : Safe R (p >>= f) Q' w := by
  refine Safe.andThen hp hw fun r w' hinv hq => ?_
  cases r with
  | ok a => exact hok a w' hinv hq
  | error e => exact herror e w' hinv hq

theorem Safe.perform {e : E α}
    (h : ∀ w₁, Relation.ReflTransGen S.env w w₁ → R.inv w₁ →
      R.guard e w₁ ∧ ∀ r w₂, S.exec e w₁ r w₂ → R.inv w₂ → Q r w₂) :
    Safe R (perform e) Q w := h

theorem Safe.runs {r : Except ε α} (hp : Safe R p Q w) (hw : R.inv w) (h : Runs S p w r w') :
    Q r w' ∧ R.inv w' := by
  induction h with
  | done => exact ⟨hp, hw⟩
  | call hexec _ ih =>
      obtain ⟨hguard, hnext⟩ := hp _ .refl hw
      have hinv := R.exec_inv hw hguard hexec
      exact ih (hnext _ _ hexec hinv) hinv

inductive Reach (S : System E ε W) (starts : Program E ε α → Prop) (init : W → Prop) :
    Option (Program E ε α) → W → Prop
  | init {w : W} : init w → Reach S starts init none w
  | env {c : Option (Program E ε α)} {w w' : W} :
      Reach S starts init c w → S.env w w' → Reach S starts init c w'
  | start {p : Program E ε α} {w : W} :
      Reach S starts init none w → starts p → Reach S starts init (some p) w
  | call {β : Type} {e : E β} {k : Except ε β → Program E ε α} {r : Except ε β} {w w' : W} :
      Reach S starts init (some (.call e k)) w → S.exec e w r w' →
        Reach S starts init (some (k r)) w'
  | stop {p : Program E ε α} {w : W} :
      Reach S starts init (some p) w → Reach S starts init none w

variable {starts : Program E ε α → Prop} {init : W → Prop} {c : Option (Program E ε α)}

theorem Safe.env (hp : Safe R p (fun _ _ => True) w) (henv : S.env w w') :
    Safe R p (fun _ _ => True) w' := by
  cases p with
  | done r => trivial
  | call e k => exact fun w₁ h hinv => hp w₁ (h.head henv) hinv

theorem Reach.safe (hinit : ∀ w, init w → R.inv w)
    (hstart : ∀ p, starts p → ∀ w, R.inv w → Safe R p (fun _ _ => True) w)
    (h : Reach S starts init c w) :
    R.inv w ∧ ∀ p, c = some p → Safe R p (fun _ _ => True) w := by
  induction h with
  | init h => exact ⟨hinit _ h, by simp⟩
  | env _ hstep ih =>
      exact ⟨R.env_inv ih.1 hstep, fun p hp => (ih.2 p hp).env hstep⟩
  | start _ hp ih =>
      refine ⟨ih.1, fun q hq => ?_⟩
      obtain rfl := Option.some.inj hq
      exact hstart _ hp _ ih.1
  | call _ hexec ih =>
      obtain ⟨hguard, hnext⟩ := ih.2 _ rfl _ .refl ih.1
      have hinv := R.exec_inv ih.1 hguard hexec
      refine ⟨hinv, fun q hq => ?_⟩
      obtain rfl := Option.some.inj hq
      exact hnext _ _ hexec hinv
  | stop _ ih => exact ⟨ih.1, by simp⟩

theorem Reach.guard {β : Type} {e : E β} {k : Except ε β → Program E ε α}
    (hinit : ∀ w, init w → R.inv w)
    (hstart : ∀ p, starts p → ∀ w, R.inv w → Safe R p (fun _ _ => True) w)
    (h : Reach S starts init (some (.call e k)) w) : R.guard e w := by
  obtain ⟨hinv, hsafe⟩ := h.safe hinit hstart
  exact (hsafe _ rfl w .refl hinv).1

theorem Only.safe {P : {β : Type} → E β → Prop} (hp : p.Only P)
    (h : ∀ {β : Type} (e : E β) (w : W), P e → R.guard e w) : Safe R p (fun _ _ => True) w := by
  induction p generalizing w with
  | done r => trivial
  | call e k ih => exact fun w₁ _ _ => ⟨h e w₁ hp.1, fun r _ _ _ => ih r (hp.2 r)⟩

/-- What each step of a safe program keeps relates its beginning to its end. -/
theorem Safe.related {T : W → W → Prop} (hrefl : ∀ w, T w w)
    (htrans : ∀ {w w' w''}, T w w' → T w' w'' → T w w'')
    (henv : ∀ {w w'}, R.inv w → S.env w w' → T w w')
    (hexec : ∀ {β : Type} {e : E β} {w r w'}, R.inv w → R.guard e w → S.exec e w r w' → T w w')
    (hp : Safe R p Q w) (hw : R.inv w) : Safe R p (fun r w' => T w w' ∧ Q r w') w := by
  suffices h : ∀ v, R.inv v → T w v → Safe R p Q v → Safe R p (fun r w' => T w w' ∧ Q r w') v
    from h w hw (hrefl w) hp
  clear hw hp
  induction p with
  | done r => exact fun v _ hv hq => ⟨hv, hq⟩
  | call e k ih =>
      intro v hv hwv hp w₁ henvs hinv
      have hreached : R.inv w₁ ∧ T w w₁ := by
        clear hinv
        induction henvs with
        | refl => exact ⟨hv, hwv⟩
        | tail _ hstep ihenv =>
            exact ⟨R.env_inv ihenv.1 hstep, htrans ihenv.2 (henv ihenv.1 hstep)⟩
      obtain ⟨hguard, hnext⟩ := hp w₁ henvs hinv
      exact ⟨hguard, fun r w₂ hstep hinv₂ => ih r w₂ hinv₂
        (htrans hreached.2 (hexec hinv hguard hstep)) (hnext r w₂ hstep hinv₂)⟩

end Program
