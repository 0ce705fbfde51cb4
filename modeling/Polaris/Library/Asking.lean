import Polaris.Library.Faults

universe u

namespace Program
variable {E : Type → Type u} {ε α β W : Type} (D : Device E ε W)

def mapError (f : ε → ε) (p : Program E ε α) : Program E ε α :=
  p.andThen fun r => .done (r.mapError f)

/-- `try: p finally: q` -/
def thenAlways (p : Program E ε α) (q : Program E ε Unit) : Program E ε α :=
  p.andThen fun r => q.andThen fun s => .done (s.bind fun _ => r)

/-- A call that changes nothing; only where it is `allowed` may it fail. -/
structure Device.Question (allowed : Prop) (e : E β) : Prop where
  step : ∀ w, (D.step e w).2 = w
  torn : ∀ {w w'}, D.torn e w w' → w' = w
  fails : ∀ {w err w'}, D.fails e w err w' → w' = w ∧ allowed

/-- A program of certain calls that the first failure ends. -/
def Asks (Q : {β : Type} → E β → Prop) : Program E ε α → Prop
  | .done _ => True
  | .call e k => Q e ∧ (∀ a, (k (.ok a)).Asks Q) ∧
      ∀ err, ∃ err', k (.error err) = .done (.error err')

/-- Every call of the run is one that `P` describes. -/
def Along (P : {β : Type} → E β → W → Prop) : Program E ε α → W → Prop
  | .done _, _ => True
  | .call e k, w => P e w ∧ (k (D.step e w).1).Along P (D.step e w).2

variable {D} {allowed : Prop} {p : Program E ε α} {f : α → Program E ε β} {w v : W}
  {P : {β : Type} → E β → W → Prop} {Q Q' : {β : Type} → E β → Prop}

theorem complete_mapError {g : ε → ε} : (p.mapError g).complete D w =
    ((p.complete D w).1.mapError g, (p.complete D w).2) := complete_andThen

theorem complete_bind_iff {b : β} : (p >>= f).complete D w = (.ok b, v) ↔
    ∃ a u, p.complete D w = (.ok a, u) ∧ (f a).complete D u = (.ok b, v) := by
  rw [bind_def, complete_andThen]
  constructor
  · intro h
    cases hp : p.complete D w with
    | mk r u =>
        rw [hp] at h
        cases r with
        | ok a => exact ⟨a, u, rfl, h⟩
        | error err => cases h
  · rintro ⟨a, u, hp, hf⟩
    rw [hp]
    exact hf

theorem complete_mapError_iff {g : ε → ε} {a : α} :
    (p.mapError g).complete D w = (.ok a, v) ↔ p.complete D w = (.ok a, v) := by
  rw [complete_mapError]
  cases p.complete D w with
  | mk r u => cases r <;> simp [Except.mapError]

theorem complete_ofExcept_iff {r : Except ε α} {a : α} :
    (ofExcept r).complete D w = (.ok a, v) ↔ r = .ok a ∧ w = v := by
  change (r, w) = (.ok a, v) ↔ _
  rw [Prod.mk.injEq]

theorem complete_pure_iff {a b : α} :
    (pure a : Program E ε α).complete D w = (.ok b, v) ↔ a = b ∧ w = v := by
  change ((Except.ok a : Except ε α), w) = (.ok b, v) ↔ _
  rw [Prod.mk.injEq, Except.ok.injEq]

theorem complete_throw_iff {err : ε} {a : α} :
    ¬ (throw err : Program E ε α).complete D w = (.ok a, v) := by
  intro h
  cases h

theorem asks_pure {a : α} : (pure a : Program E ε α).Asks Q := trivial

theorem asks_ofExcept {r : Except ε α} : (ofExcept r : Program E ε α).Asks Q := trivial

theorem asks_throw {err : ε} : (throw err : Program E ε α).Asks Q := trivial

theorem asks_perform {e : E α} (h : Q e) :
    (perform e : Program E ε α).Asks Q :=
  ⟨h, fun _ => trivial, fun err => ⟨err, rfl⟩⟩

theorem Asks.bind (hp : p.Asks Q) (hf : ∀ a, (f a).Asks Q) :
    (p >>= f).Asks Q := by
  induction p with
  | done r =>
      cases r with
      | ok a => exact hf a
      | error err => trivial
  | call e k ih =>
      obtain ⟨he, hok, herror⟩ := hp
      refine ⟨he, fun a => ih _ (hok a), fun err => ?_⟩
      obtain ⟨err', hk⟩ := herror err
      refine ⟨err', ?_⟩
      change (k (.error err)).andThen _ = _
      rw [hk]
      rfl

theorem Asks.mapError (hp : p.Asks Q) (g : ε → ε) :
    (p.mapError g).Asks Q := by
  induction p with
  | done r => trivial
  | call e k ih =>
      obtain ⟨he, hok, herror⟩ := hp
      refine ⟨he, fun a => ih _ (hok a), fun err => ?_⟩
      obtain ⟨err', hk⟩ := herror err
      refine ⟨g err', ?_⟩
      change (k (.error err)).andThen _ = _
      rw [hk]
      rfl

theorem Asks.mono (hp : p.Asks Q)
    (h : ∀ {β : Type} {e : E β}, Q e → Q' e) : p.Asks Q' := by
  induction p with
  | done r => trivial
  | call e k ih => exact ⟨h hp.1, fun a => ih _ (hp.2.1 a), hp.2.2⟩

theorem Asks.complete_snd (hp : p.Asks Q)
    (hQ : ∀ {β : Type} {e : E β}, Q e → D.Question allowed e) : (p.complete D w).2 = w := by
  induction p generalizing w with
  | done r => rfl
  | call e k ih =>
      obtain ⟨he, hok, herror⟩ := hp
      have hstep := (hQ he).step w
      change ((k (D.step e w).1).complete D (D.step e w).2).2 = w
      rw [hstep]
      cases hr : (D.step e w).1 with
      | ok a => exact ih _ (hok a)
      | error err =>
          obtain ⟨err', hk⟩ := herror err
          rw [hk]
          rfl

theorem Asks.complete (hp : p.Asks Q)
    (hQ : ∀ {β : Type} {e : E β}, Q e → D.Question allowed e) :
    p.complete D w = ((p.complete D w).1, w) :=
  Prod.ext rfl (hp.complete_snd hQ)

/-- Where nothing fails the answers are those of the complete run. -/
theorem Asks.keeps {I : W → Prop} {b : Bool} (hp : p.Asks Q)
    (hQ : ∀ {β : Type} {e : E β}, Q e → D.Question allowed e) (hI : I w) :
    p.Keeps D I b (fun b' r w' => w' = w ∧ (b' = b ∧ p.complete D w = (r, w) ∨
      b' = false ∧ allowed ∧ ∃ err, r = .error err)) w := by
  induction p generalizing w with
  | done r => exact ⟨rfl, .inl ⟨rfl, rfl⟩⟩
  | call e k ih =>
      obtain ⟨he, hok, herror⟩ := hp
      have hstep := (hQ he).step w
      refine ⟨fun w' htorn => ?_, ?_, ?_, fun _ err w' hfail => ?_⟩
      · rw [(hQ he).torn htorn]
        exact hI
      · rw [hstep]
        exact hI
      · rw [hstep]
        cases hr : (D.step e w).1 with
        | ok a =>
            refine (ih _ (hok a) hI).mono fun b' r w' hq => ⟨hq.1, hq.2.imp_left fun h => ?_⟩
            refine ⟨h.1, ?_⟩
            rw [Program.complete, hr, hstep]
            exact h.2
        | error err =>
            obtain ⟨err', hk⟩ := herror err
            rw [hk]
            refine ⟨rfl, .inl ⟨rfl, ?_⟩⟩
            rw [Program.complete, hr, hstep, hk]
            rfl
      · obtain ⟨rfl, hallowed⟩ := (hQ he).fails hfail
        obtain ⟨err', hk⟩ := herror err
        rw [hk]
        exact ⟨hI, rfl, .inr ⟨rfl, hallowed, err', rfl⟩⟩

theorem Asks.along (hp : p.Asks Q) (h : ∀ {β : Type} {e : E β} {w : W}, Q e → P e w) :
    p.Along D P w := by
  induction p generalizing w with
  | done r => trivial
  | call e k ih =>
      obtain ⟨he, hok, herror⟩ := hp
      refine ⟨h he, ?_⟩
      cases (D.step e w).1 with
      | ok a => exact ih _ (hok a)
      | error err =>
          obtain ⟨err', hk⟩ := herror err
          rw [hk]
          trivial

theorem along_andThen {h : Except ε α → Program E ε β} : (p.andThen h).Along D P w ↔
    p.Along D P w ∧ (h (p.complete D w).1).Along D P (p.complete D w).2 := by
  induction p generalizing w with
  | done r => exact ⟨fun h => ⟨trivial, h⟩, And.right⟩
  | call e k ih =>
      change _ ∧ _ ↔ (_ ∧ _) ∧ _
      rw [and_assoc]
      exact and_congr_right fun _ => ih _

theorem along_bind (hp : p.Along D P w)
    (hf : ∀ a v, p.complete D w = (.ok a, v) → (f a).Along D P v) : (p >>= f).Along D P w := by
  rw [bind_def, along_andThen]
  refine ⟨hp, ?_⟩
  cases hr : p.complete D w with
  | mk r v =>
      cases r with
      | ok a => exact hf a v hr
      | error err => trivial

theorem along_mapError {g : ε → ε} : (p.mapError g).Along D P w ↔ p.Along D P w :=
  along_andThen.trans (and_iff_left trivial)

theorem along_perform {e : E α} (h : P e w) : (perform e : Program E ε α).Along D P w :=
  ⟨h, trivial⟩

theorem along_done {r : Except ε α} : (Program.done r : Program E ε α).Along D P w := trivial

/-- A run that returns is one without a fault. One that raises leaves what `F` describes, or what
`G` describes where the fault was none of the `allowed` ones. -/
def Raises (allowed : Prop) (F G : W → Prop) (b : Bool) : Bool → Except ε α → W → Prop
  | b', .ok _, _ => b' = b
  | b', .error _, w => F w ∧ (b' = b ∨ allowed) ∨ G w ∧ ¬ allowed ∧ b' = false

section
variable {I F G : W → Prop} {b : Bool} {Q : Bool → Except ε α → W → Prop}

theorem Keeps.of_false (hp : p.Keeps D I false Q w) :
    p.Keeps D I false (fun b' r w' => Q b' r w' ∧ b' = false) w := by
  induction p generalizing w with
  | done r => exact ⟨hp, rfl⟩
  | call e k ih => exact ⟨hp.1, hp.2.1, ih _ hp.2.2.1, fun hb => by cases hb⟩

/-- A run without a fault is the complete one. -/
theorem Keeps.unfaulted (hp : p.Keeps D I b Q w) :
    p.Keeps D I b (fun b' r w' => Q b' r w' ∧ (b' = b → p.complete D w = (r, w'))) w := by
  induction p generalizing w with
  | done r => exact ⟨hp, fun _ => rfl⟩
  | call e k ih =>
      obtain ⟨htorn, hstep, hrest, hfail⟩ := hp
      refine ⟨htorn, hstep, ih _ hrest, fun hb err w' hw' => ⟨(hfail hb err w' hw').1, ?_⟩⟩
      refine (hfail hb err w' hw').2.of_false.mono fun b' r w₁ hq => ⟨hq.1, fun hb' => ?_⟩
      subst hb
      rw [hq.2] at hb'
      cases hb'

theorem Keeps.raises_bind (hp : p.Keeps D I b (Raises allowed F G b) w)
    (hf : ∀ a v, p.complete D w = (.ok a, v) → (f a).Keeps D I b (Raises allowed F G b) v) :
    (p >>= f).Keeps D I b (Raises allowed F G b) w := by
  refine hp.unfaulted.andThen fun b' r v hq => ?_
  cases r with
  | ok a =>
      obtain ⟨hb, hcomplete⟩ := hq
      obtain rfl : b' = b := hb
      exact hf a v (hcomplete rfl)
  | error err => exact hq.1

theorem Keeps.raises_mapError (hp : p.Keeps D I b (Raises allowed F G b) w) (g : ε → ε) :
    (p.mapError g).Keeps D I b (Raises allowed F G b) w := by
  refine hp.andThen fun b' r v hq => ?_
  cases r with
  | ok a => exact hq
  | error err => exact hq

theorem Asks.raises (hp : p.Asks Q')
    (hQ : ∀ {β : Type} {e : E β}, Q' e → D.Question allowed e) (hI : I w) (hF : F w) :
    p.Keeps D I b (Raises allowed F G b) w := by
  refine (hp.keeps hQ hI).mono fun b' r w' hq => ?_
  obtain ⟨rfl, hq⟩ := hq
  cases r with
  | ok a =>
      rcases hq with ⟨rfl, -⟩ | ⟨-, -, err, herror⟩
      · rfl
      · cases herror
  | error err => exact .inl ⟨hF, hq.imp And.left fun h => h.2.1⟩

theorem raises_perform {e : E α} (htorn : ∀ v, D.torn e w v → I v) (hI : I (D.step e w).2)
    (herror : ∀ err, (D.step e w).1 = .error err → F (D.step e w).2)
    (hfail : ∀ err v, D.fails e w err v → I v ∧ F v ∧ allowed) :
    (perform e : Program E ε α).Keeps D I b (Raises allowed F G b) w := by
  refine ⟨htorn, hI, ?_, fun _ err v hv => ?_⟩
  · cases hr : (D.step e w).1 with
    | ok a => exact rfl
    | error err => exact .inl ⟨herror err hr, .inl rfl⟩
  · obtain ⟨hIv, hF, hallowed⟩ := hfail err v hv
    exact ⟨hIv, .inl ⟨hF, .inr hallowed⟩⟩

end

end Program
