import Mathlib.Tactic.Common

def Txn (ε σ α : Type) := σ → Except ε α × σ

namespace Txn
variable {ε σ α β : Type}

protected def pure (a : α) : Txn ε σ α := fun s => (.ok a, s)

protected def bind (x : Txn ε σ α) (f : α → Txn ε σ β) : Txn ε σ β := fun s =>
  match x s with
  | (.ok a, s') => f a s'
  | (.error e, s') => (.error e, s')

instance : Monad (Txn ε σ) where
  pure := Txn.pure
  bind := Txn.bind

def fail (e : ε) : Txn ε σ α := fun s => (.error e, s)

def require (holds : Bool) (e : ε) : Txn ε σ Unit := fun s => (if holds then .ok () else .error e, s)

def lift (x : Except ε α) : Txn ε σ α := fun s => (x, s)

def getOr (o : Option α) (e : ε) : Txn ε σ α := fun s => (o.elim (.error e) .ok, s)

def read (f : σ → α) : Txn ε σ α := fun s => (.ok (f s), s)

def write (f : σ → σ) : Txn ε σ Unit := fun s => (.ok (), f s)

def atomically (x : Txn ε σ α) : Txn ε σ α := fun s =>
  match x s with
  | (.ok a, s') => (.ok a, s')
  | (.error e, _) => (.error e, s)

@[simp] theorem pure_ok {a b : α} {s s' : σ} :
    (pure a : Txn ε σ α) s = (.ok b, s') ↔ a = b ∧ s = s' := by
  change (Except.ok a, s) = _ ↔ _
  simp

@[simp] theorem bind_ok {x : Txn ε σ α} {f : α → Txn ε σ β} {b : β} {s s' : σ} :
    (x >>= f) s = (.ok b, s') ↔ ∃ a t, x s = (.ok a, t) ∧ f a t = (.ok b, s') := by
  change Txn.bind x f s = _ ↔ _
  unfold Txn.bind
  rcases hx : x s with ⟨_ | a, t⟩ <;> simp

theorem bind_error {x : Txn ε σ α} {f : α → Txn ε σ β} {e : ε} {s s' : σ} :
    (x >>= f) s = (.error e, s') ↔
      x s = (.error e, s') ∨ ∃ a t, x s = (.ok a, t) ∧ f a t = (.error e, s') := by
  change Txn.bind x f s = _ ↔ _
  unfold Txn.bind
  rcases hx : x s with ⟨_ | a, t⟩ <;> simp

theorem bind_of_ok {x : Txn ε σ α} {f : α → Txn ε σ β} {a : α} {s t : σ} (h : x s = (.ok a, t)) :
    (x >>= f) s = f a t := by
  change Txn.bind x f s = f a t
  rw [Txn.bind, h]

theorem lift_ok_bind (a : α) (f : α → Txn ε σ β) : (lift (.ok a) >>= f) = f a := rfl

theorem bind_of_error {x : Txn ε σ α} {f : α → Txn ε σ β} {e : ε} {s t : σ}
    (h : x s = (.error e, t)) : (x >>= f) s = (.error e, t) := by
  change Txn.bind x f s = _
  rw [Txn.bind, h]

@[simp] theorem fail_ok {e : ε} {a : α} {s s' : σ} :
    (fail e : Txn ε σ α) s = (.ok a, s') ↔ False := by simp [fail]

@[simp] theorem require_ok {holds : Bool} {e : ε} {u : Unit} {s s' : σ} :
    (require holds e : Txn ε σ Unit) s = (.ok u, s') ↔ holds = true ∧ s = s' := by
  cases holds <;> simp [require]

@[simp] theorem lift_ok {x : Except ε α} {a : α} {s s' : σ} :
    (lift x : Txn ε σ α) s = (.ok a, s') ↔ x = .ok a ∧ s = s' := by simp [lift]

@[simp] theorem getOr_ok {o : Option α} {e : ε} {a : α} {s s' : σ} :
    (getOr o e : Txn ε σ α) s = (.ok a, s') ↔ o = some a ∧ s = s' := by
  cases o <;> simp [getOr]

@[simp] theorem read_ok {f : σ → α} {a : α} {s s' : σ} :
    (read f : Txn ε σ α) s = (.ok a, s') ↔ f s = a ∧ s = s' := by simp [read]

@[simp] theorem write_ok {f : σ → σ} {u : Unit} {s s' : σ} :
    (write f : Txn ε σ Unit) s = (.ok u, s') ↔ f s = s' := by simp [write]

@[simp] theorem atomically_ok {x : Txn ε σ α} {a : α} {s s' : σ} :
    atomically x s = (.ok a, s') ↔ x s = (.ok a, s') := by
  unfold atomically
  rcases x s with ⟨_ | b, t⟩ <;> simp

@[simp] theorem ite_ok {c : Prop} [Decidable c] {x y : Txn ε σ α} {a : α} {s s' : σ} :
    (if c then x else y) s = (.ok a, s') ↔
      c ∧ x s = (.ok a, s') ∨ ¬ c ∧ y s = (.ok a, s') := by
  split <;> simp_all

def ReadOnly (x : Txn ε σ α) : Prop := ∀ s, (x s).2 = s

def Atomic (x : Txn ε σ α) : Prop := ∀ s e, (x s).1 = .error e → (x s).2 = s

theorem ReadOnly.atomic {x : Txn ε σ α} (h : ReadOnly x) : Atomic x := fun s _ _ => h s

theorem ReadOnly.state {x : Txn ε σ α} {r : Except ε α} {s s' : σ} (hx : ReadOnly x)
    (h : x s = (r, s')) : s' = s := by
  have hsame := hx s
  rwa [h] at hsame

theorem Atomic.state {x : Txn ε σ α} {e : ε} {s s' : σ} (hx : Atomic x)
    (h : x s = (.error e, s')) : s' = s := by
  have hsame := hx s e (by rw [h])
  rwa [h] at hsame

theorem require_readOnly (holds : Bool) (e : ε) : ReadOnly (require holds e : Txn ε σ Unit) :=
  fun _ => rfl

theorem lift_readOnly (x : Except ε α) : ReadOnly (lift x : Txn ε σ α) := fun _ => rfl

theorem getOr_readOnly (o : Option α) (e : ε) : ReadOnly (getOr o e : Txn ε σ α) := fun _ => rfl

theorem read_readOnly (f : σ → α) : ReadOnly (read f : Txn ε σ α) := fun _ => rfl

theorem pure_readOnly (a : α) : ReadOnly (pure a : Txn ε σ α) := fun _ => rfl

theorem fail_readOnly (e : ε) : ReadOnly (fail e : Txn ε σ α) := fun _ => rfl

theorem ReadOnly.bind {x : Txn ε σ α} {f : α → Txn ε σ β} (hx : ReadOnly x)
    (hf : ∀ a, ReadOnly (f a)) : ReadOnly (x >>= f) := by
  intro s
  change (Txn.bind x f s).2 = s
  have h := hx s
  unfold Txn.bind
  rcases hxs : x s with ⟨_ | a, t⟩
  · simpa [hxs] using h
  · rw [hxs] at h
    simpa using (hf a t).trans h

theorem atomically_atomic (x : Txn ε σ α) : Atomic (atomically x) := by
  intro s e h
  rcases hx : x s with ⟨_ | a, t⟩
  · simp [atomically, hx]
  · simp [atomically, hx] at h

theorem ReadOnly.bind_atomic {x : Txn ε σ α} {f : α → Txn ε σ β} (hx : ReadOnly x)
    (hf : ∀ a, Atomic (f a)) : Atomic (x >>= f) := by
  intro s e
  change (Txn.bind x f s).1 = _ → (Txn.bind x f s).2 = s
  have h := hx s
  unfold Txn.bind
  rcases hxs : x s with ⟨_ | a, t⟩
  · exact fun _ => by simpa [hxs] using h
  · rw [hxs] at h
    intro herr
    simpa using (hf a t e (by simpa using herr)).trans h

/-- Whatever it answers, the step relates the state before it and the state after it by `R`. -/
def Within (R : σ → σ → Prop) (x : Txn ε σ α) : Prop := ∀ s, R s (x s).2

section
variable {R : σ → σ → Prop} {x : Txn ε σ α}

theorem ReadOnly.within (hrefl : ∀ s, R s s) (h : ReadOnly x) : Within R x := fun s => by
  rw [h s]
  exact hrefl s

theorem Within.bind (htrans : ∀ {s t u}, R s t → R t u → R s u) {f : α → Txn ε σ β}
    (hx : Within R x) (hf : ∀ a, Within R (f a)) : Within R (x >>= f) := by
  intro s
  change R s (Txn.bind x f s).2
  have h := hx s
  unfold Txn.bind
  rcases hxs : x s with ⟨_ | a, t⟩
  · simpa [hxs] using h
  · rw [hxs] at h
    exact htrans h (hf a t)

theorem Within.atomically (hrefl : ∀ s, R s s) (hx : Within R x) : Within R (Txn.atomically x) := by
  intro s
  have h := hx s
  rcases hxs : x s with ⟨_ | a, t⟩
  · simpa [Txn.atomically, hxs] using hrefl s
  · simpa [Txn.atomically, hxs] using h

end

/-- Whatever it answers, the step leaves a part of the state as it was. -/
def Keeps {γ : Type} (g : σ → γ) (x : Txn ε σ α) : Prop := Within (fun s s' => g s' = g s) x

section
variable {γ : Type} {g : σ → γ} {x : Txn ε σ α}

theorem ReadOnly.keeps (h : ReadOnly x) : Keeps g x := h.within fun _ => rfl

theorem Keeps.bind {f : α → Txn ε σ β} (hx : Keeps g x) (hf : ∀ a, Keeps g (f a)) :
    Keeps g (x >>= f) := Within.bind (fun h h' => h'.trans h) hx hf

theorem keeps_write {f : σ → σ} (h : ∀ s, g (f s) = g s) : Keeps g (write f : Txn ε σ Unit) := h

theorem keeps_write_bind {f : σ → σ} {k : Unit → Txn ε σ β} (h : ∀ s, g (f s) = g s)
    (hk : ∀ u, Keeps g (k u)) : Keeps g (write f >>= k) := (keeps_write h).bind hk

theorem Keeps.atomically (hx : Keeps g x) : Keeps g (Txn.atomically x) :=
  Within.atomically (fun _ => rfl) hx

end

/-- From a state, the step leaves it as it was or ends in one that has a property. -/
def CommitsAt (W : σ → Prop) (x : Txn ε σ α) (s : σ) : Prop := (x s).2 = s ∨ W (x s).2

section
variable {W : σ → Prop} {x : Txn ε σ α} {f : α → Txn ε σ β} {s : σ}

theorem ReadOnly.commitsAt (hx : ReadOnly x) : CommitsAt W x s := .inl (hx s)

theorem ReadOnly.commitsAt_bind (hx : ReadOnly x)
    (hf : ∀ a, x s = (.ok a, s) → CommitsAt W (f a) s) : CommitsAt W (x >>= f) s := by
  have h := hx s
  rcases hxs : x s with ⟨e | a, t⟩
  · rw [hxs] at h
    exact .inl (by rw [bind_of_error hxs]; exact h)
  · obtain rfl : t = s := by rw [hxs] at h; exact h
    rw [CommitsAt, bind_of_ok hxs]
    exact hf a hxs

theorem commitsAt_write {g : σ → σ} (h : W (g s)) : CommitsAt W (write g : Txn ε σ Unit) s := .inr h

theorem commitsAt_atomically (h : ∀ a s', x s = (.ok a, s') → W s') :
    CommitsAt W (atomically x) s := by
  rcases hxs : x s with ⟨e | a, t⟩
  · exact .inl (by simp [atomically, hxs])
  · exact .inr (by simpa [atomically, hxs] using h a t hxs)

theorem CommitsAt.bind_readOnly (hx : CommitsAt W x s) (hf : ∀ a, ReadOnly (f a)) :
    CommitsAt W (x >>= f) s := by
  have hsame : ((x >>= f) s).2 = (x s).2 := by
    change (Txn.bind x f s).2 = _
    unfold Txn.bind
    rcases x s with ⟨e | a, t⟩
    · rfl
    · exact hf a t
  rwa [CommitsAt, hsame]

end

end Txn
