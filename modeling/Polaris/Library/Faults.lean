import Mathlib.Data.Nat.Notation
import Polaris.Library.Program

universe u

namespace Program

/-- A device that makes calls: what a call does, what a crash within the call may leave, and how the
call may fail. -/
structure Device (E : Type → Type u) (ε W : Type) where
  step : {β : Type} → E β → W → Except ε β × W
  torn : {β : Type} → E β → W → W → Prop
  fails : {β : Type} → E β → W → ε → W → Prop

variable {E : Type → Type u} {ε α β W : Type} (D : Device E ε W)

def complete : Program E ε α → W → Except ε α × W
  | .done r, w => (r, w)
  | .call e k, w => (k (D.step e w).1).complete (D.step e w).2

/-- A run in which exactly one call fails that the device could have made. -/
inductive Faulty : Program E ε α → W → Except ε α → W → Prop
  | fails {β : Type} {e : E β} {k : Except ε β → Program E ε α} {err : ε} {w w' : W} :
      D.fails e w err w' →
        Faulty (.call e k) w ((k (.error err)).complete D w').1 ((k (.error err)).complete D w').2
  | next {β : Type} {e : E β} {k : Except ε β → Program E ε α} {r : Except ε α} {w w' : W} :
      Faulty (k (D.step e w).1) (D.step e w).2 r w' → Faulty (.call e k) w r w'

/-- What a crash of the run may leave, of a run in which one call may fail if the flag is set. -/
inductive Stops : Bool → Program E ε α → W → W → Prop
  | here {b : Bool} {p : Program E ε α} {w : W} : Stops b p w w
  | within {β : Type} {b : Bool} {e : E β} {k : Except ε β → Program E ε α} {w w' : W} :
      D.torn e w w' → Stops b (.call e k) w w'
  | next {β : Type} {b : Bool} {e : E β} {k : Except ε β → Program E ε α} {w w' : W} :
      Stops b (k (D.step e w).1) (D.step e w).2 w' → Stops b (.call e k) w w'
  | fails {β : Type} {e : E β} {k : Except ε β → Program E ε α} {err : ε} {w w' w'' : W} :
      D.fails e w err w' → Stops false (k (.error err)) w' w'' → Stops true (.call e k) w w''

variable (I : W → Prop)

/-- Every crash of the run leaves what `I` describes, and every end of it is one that `Q` describes. -/
def Keeps : Bool → Program E ε α → (Bool → Except ε α → W → Prop) → W → Prop
  | b, .done r, Q, w => Q b r w
  | b, .call e k, Q, w =>
      (∀ w', D.torn e w w' → I w') ∧ I (D.step e w).2 ∧
        (k (D.step e w).1).Keeps b Q (D.step e w).2 ∧
        (b = true → ∀ err w', D.fails e w err w' → I w' ∧ (k (.error err)).Keeps false Q w')

variable {D I} {b : Bool} {p : Program E ε α} {Q Q' : Bool → Except ε α → W → Prop} {w w' v : W}

theorem complete_andThen {h : Except ε α → Program E ε β} :
    (p.andThen h).complete D w = (h (p.complete D w).1).complete D (p.complete D w).2 := by
  induction p generalizing w with
  | done r => rfl
  | call e k ih => exact ih _

theorem complete_bind_ok {f : α → Program E ε β} {a : α} (h : p.complete D w = (.ok a, v)) :
    (p >>= f).complete D w = (f a).complete D v := by
  rw [bind_def, complete_andThen, h]

theorem complete_bind_error {f : α → Program E ε β} {err : ε}
    (h : p.complete D w = (.error err, v)) : (p >>= f).complete D w = (.error err, v) := by
  rw [bind_def, complete_andThen, h]
  rfl

theorem Faulty.andThen {h : Except ε α → Program E ε β} {q : Except ε α} (hp : Faulty D p w q w') :
    Faulty D (p.andThen h) w ((h q).complete D w').1 ((h q).complete D w').2 := by
  induction hp with
  | fails hfail =>
      rw [← complete_andThen]
      exact .fails hfail
  | next _ ih => exact .next ih

theorem Faulty.after {h : Except ε α → Program E ε β} {q : Except ε α} {r : Except ε β}
    (hp : p.complete D w = (q, v)) (hq : Faulty D (h q) v r w') : Faulty D (p.andThen h) w r w' := by
  induction p generalizing w with
  | done q' =>
      cases hp
      exact hq
  | call e k ih => exact .next (ih _ hp)

theorem Keeps.mono (hp : p.Keeps D I b Q w) (h : ∀ b' r w', Q b' r w' → Q' b' r w') :
    p.Keeps D I b Q' w := by
  induction p generalizing b w with
  | done r => exact h _ _ _ hp
  | call e k ih =>
      obtain ⟨htorn, hstep, hnext, hfail⟩ := hp
      refine ⟨htorn, hstep, ih _ hnext, fun hb err w' hw' => ?_⟩
      exact ⟨(hfail hb err w' hw').1, ih _ (hfail hb err w' hw').2⟩

theorem Keeps.andThen {h : Except ε α → Program E ε β} {Q' : Bool → Except ε β → W → Prop}
    (hp : p.Keeps D I b Q w) (hnext : ∀ b' r w', Q b' r w' → (h r).Keeps D I b' Q' w') :
    (p.andThen h).Keeps D I b Q' w := by
  induction p generalizing b w with
  | done r => exact hnext _ _ _ hp
  | call e k ih =>
      obtain ⟨htorn, hstep, hrest, hfail⟩ := hp
      refine ⟨htorn, hstep, ih _ hrest, fun hb err w' hw' => ?_⟩
      exact ⟨(hfail hb err w' hw').1, ih _ (hfail hb err w' hw').2⟩

theorem Keeps.complete (hp : p.Keeps D I b Q w) :
    Q b (p.complete D w).1 (p.complete D w).2 := by
  induction p generalizing w with
  | done r => exact hp
  | call e k ih => exact ih _ hp.2.2.1

theorem Keeps.faulty {r : Except ε α} (hp : p.Keeps D I true Q w) (h : Faulty D p w r w') :
    Q false r w' := by
  induction h with
  | fails hfail => exact (hp.2.2.2 rfl _ _ hfail).2.complete
  | next _ ih => exact ih hp.2.2.1

theorem Keeps.stops (hp : p.Keeps D I b Q w) (hw : I w) (h : Stops D b p w w') : I w' := by
  induction h with
  | here => exact hw
  | within htorn => exact hp.1 _ htorn
  | next _ ih => exact ih hp.2.2.1 hp.2.1
  | fails hfail _ ih =>
      obtain ⟨hI, hk⟩ := hp.2.2.2 rfl _ _ hfail
      exact ih hk hI

/-- The world that a crash leaves after so many calls that nothing fails. -/
def crashAfter (D : Device E ε W) : ℕ → Program E ε α → W → W
  | 0, _, w => w
  | _ + 1, .done _, w => w
  | n + 1, .call e k, w => crashAfter D n (k (D.step e w).1) (D.step e w).2

theorem stops_crashAfter (n : ℕ) : Stops D b p w (crashAfter D n p w) := by
  induction n generalizing p w with
  | zero => exact .here
  | succ n ih =>
      cases p with
      | done r => exact .here
      | call e k => exact .next ih

theorem stops_complete : Stops D b p w (p.complete D w).2 := by
  induction p generalizing w with
  | done r => exact .here
  | call e k ih => exact .next (ih _)

theorem Faulty.stops {r : Except ε α} (h : Faulty D p w r w') : Stops D true p w w' := by
  induction h with
  | fails hfail => exact .fails hfail stops_complete
  | next _ ih => exact .next ih

/-- The end of a run whose call after so many others fails, where the device `allows` it. -/
def faultAfter (D : Device E ε W) (allows : {β : Type} → E β → Bool) (err : ε) :
    ℕ → Program E ε α → W → Option (Except ε α × W)
  | _, .done _, _ => none
  | 0, .call e k, w => if allows e then some ((k (.error err)).complete D w) else none
  | n + 1, .call e k, w => faultAfter D allows err n (k (D.step e w).1) (D.step e w).2

theorem faulty_faultAfter {allows : {β : Type} → E β → Bool} {err : ε} {n : ℕ} {r : Except ε α}
    (hallows : ∀ {β : Type} {e : E β} {w : W}, allows e = true → D.fails e w err w)
    (h : faultAfter D allows err n p w = some (r, w')) : Faulty D p w r w' := by
  induction n generalizing p w with
  | zero =>
      cases p with
      | done r => cases h
      | call e k =>
          rw [faultAfter] at h
          split at h
          · rename_i hallow
            have hfault := Faulty.fails (D := D) (k := k) (hallows (w := w) hallow)
            rwa [Option.some.inj h] at hfault
          · cases h
  | succ n ih =>
      cases p with
      | done r => cases h
      | call e k => exact .next (ih h)

/-- The ends of a run that starts with the flag `b`: a value with the fault still to come, or an error
with none to come. -/
def Ends (b : Bool) (A : α → W → Prop) (F : ε → W → Prop) : Bool → Except ε α → W → Prop
  | b', .ok a, w => b' = b ∧ A a w
  | b', .error e, w => b' = false ∧ F e w

section
variable {A : α → W → Prop} {B : β → W → Prop} {F : ε → W → Prop} {f : α → Program E ε β}

theorem Keeps.bind (hp : p.Keeps D I b (Ends b A F) w)
    (hf : ∀ a w', A a w' → (f a).Keeps D I b (Ends b B F) w') :
    (p >>= f).Keeps D I b (Ends b B F) w := by
  refine hp.andThen fun b' r w' hq => ?_
  cases r with
  | ok a =>
      obtain ⟨rfl, ha⟩ := hq
      exact hf a w' ha
  | error e => exact hq

theorem Keeps.sure_bind {Q : Bool → Except ε β → W → Prop}
    (hp : p.Keeps D I b (Ends b A fun _ _ => False) w)
    (hf : ∀ a w', A a w' → (f a).Keeps D I b Q w') : (p >>= f).Keeps D I b Q w := by
  refine hp.andThen fun b' r w' hq => ?_
  cases r with
  | ok a =>
      obtain ⟨rfl, ha⟩ := hq
      exact hf a w' ha
  | error e => exact hq.2.elim

theorem keeps_pure {a : α} (h : A a w) : (pure a : Program E ε α).Keeps D I b (Ends b A F) w :=
  ⟨rfl, h⟩

theorem keeps_perform {e : E α} {a : α} (hstep : D.step e w = (.ok a, v)) (hA : A a v)
    (hI : I v) (htorn : ∀ w₁, D.torn e w w₁ → I w₁)
    (hfail : b = true → ∀ err w₁, D.fails e w err w₁ → I w₁ ∧ F err w₁) :
    (perform e).Keeps D I b (Ends b A F) w := by
  refine ⟨htorn, ?_, ?_, fun hb err w₁ hw₁ => ?_⟩
  · rw [hstep]
    exact hI
  · rw [hstep]
    exact ⟨rfl, hA⟩
  · exact ⟨(hfail hb err w₁ hw₁).1, rfl, (hfail hb err w₁ hw₁).2⟩

theorem Keeps.call_bind {e : E α} {a : α}
    (hstep : D.step e w = (.ok a, v)) (hI : I v) (htorn : ∀ w₁, D.torn e w w₁ → I w₁)
    (hfail : b = true → ∀ err w₁, D.fails e w err w₁ → I w₁ ∧ F err w₁)
    (hrest : (f a).Keeps D I b (Ends b B F) v) :
    (perform e >>= f).Keeps D I b (Ends b B F) w := by
  refine ⟨htorn, ?_, ?_, fun hb err w₁ hw₁ => ?_⟩
  · rw [hstep]
    exact hI
  · rw [hstep]
    exact hrest
  · exact ⟨(hfail hb err w₁ hw₁).1, rfl, (hfail hb err w₁ hw₁).2⟩

theorem Keeps.ends (hp : p.Keeps D I b (Ends b A F) w) {A' : α → W → Prop} {F' : ε → W → Prop}
    (hA : ∀ a w', A a w' → A' a w') (hF : ∀ e w', F e w' → F' e w') :
    p.Keeps D I b (Ends b A' F') w := by
  refine hp.mono fun b' r w' hq => ?_
  cases r with
  | ok a => exact ⟨hq.1, hA a w' hq.2⟩
  | error e => exact ⟨hq.1, hF e w' hq.2⟩

end

end Program
