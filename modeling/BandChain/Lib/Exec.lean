/-!
Computations over a state that may stop early. A stop keeps the state it was reached in, so the
rules below speak of the state after a success and of the state after a stop. `Triple` is the
rule set for one program, `Sim` the rule set for two programs run in step.
-/

/-- A computation over `σ` that returns an `α` or stops with an `ε`. -/
def Exec (ε σ α : Type) : Type := σ → Except ε α × σ

namespace Exec

variable {ε σ τ α β : Type}

instance : Monad (Exec ε σ) where
  pure a := fun s => (.ok a, s)
  bind x f := fun s =>
    match x s with
    | (.ok a, t) => f a t
    | (.error e, t) => (.error e, t)

def stop (e : ε) : Exec ε σ α := fun s => (.error e, s)

def get : Exec ε σ σ := fun s => (.ok s, s)

def modify (f : σ → σ) : Exec ε σ Unit := fun s => (.ok (), f s)

def ofExcept (x : Except ε α) : Exec ε σ α := fun s => (x, s)

@[simp] theorem pure_apply (a : α) (s : σ) : (pure a : Exec ε σ α) s = (.ok a, s) := rfl

@[simp] theorem stop_apply (e : ε) (s : σ) : (stop e : Exec ε σ α) s = (.error e, s) := rfl

@[simp] theorem get_apply (s : σ) : (get : Exec ε σ σ) s = (.ok s, s) := rfl

@[simp] theorem modify_apply (f : σ → σ) (s : σ) : (modify f : Exec ε σ Unit) s = (.ok (), f s) := rfl

@[simp] theorem ofExcept_apply (x : Except ε α) (s : σ) : (ofExcept x : Exec ε σ α) s = (x, s) := rfl

theorem bind_apply (x : Exec ε σ α) (f : α → Exec ε σ β) (s : σ) :
    (x >>= f) s = match x s with
      | (.ok a, t) => f a t
      | (.error e, t) => (.error e, t) := rfl

theorem bind_of_ok {x : Exec ε σ α} {f : α → Exec ε σ β} {s t : σ} {a : α} (h : x s = (.ok a, t)) :
    (x >>= f) s = f a t := by
  rw [bind_apply, h]

theorem bind_of_error {x : Exec ε σ α} {f : α → Exec ε σ β} {s t : σ} {e : ε} (h : x s = (.error e, t)) :
    (x >>= f) s = (.error e, t) := by
  rw [bind_apply, h]

/-- A sequence succeeds only through a success of its first part. -/
theorem bind_ok {x : Exec ε σ α} {f : α → Exec ε σ β} {s t : σ} {b : β} (h : (x >>= f) s = (.ok b, t)) :
    ∃ a u, x s = (.ok a, u) ∧ f a u = (.ok b, t) := by
  rw [bind_apply] at h
  rcases first : x s with ⟨e | a, u⟩
  · rw [first] at h; cases h
  · rw [first] at h; exact ⟨a, u, rfl, h⟩

theorem ofExcept_ok {x : Except ε α} {s t : σ} {a : α} (h : ofExcept x s = (.ok a, t)) : s = t ∧ x = .ok a :=
  ⟨(Prod.mk.inj h).2, (Prod.mk.inj h).1⟩

theorem bind_error {x : Exec ε σ α} {f : α → Exec ε σ β} {s t : σ} {e : ε}
    (h : (x >>= f) s = (.error e, t)) :
    x s = (.error e, t) ∨ ∃ a u, x s = (.ok a, u) ∧ f a u = (.error e, t) := by
  rw [bind_apply] at h
  rcases first : x s with ⟨e' | a, u⟩
  · rw [first] at h; cases h; exact Or.inl rfl
  · rw [first] at h; exact Or.inr ⟨a, u, rfl, h⟩

/-! ### One program -/

/-- From a state in `P`, a success ends in `Q` and a stop in `E`. -/
def Triple (P : σ → Prop) (x : Exec ε σ α) (Q : α → σ → Prop) (E : ε → σ → Prop) : Prop :=
  ∀ s, P s → match x s with
    | (.ok a, t) => Q a t
    | (.error e, t) => E e t

namespace Triple

variable {P : σ → Prop} {Q : α → σ → Prop} {R : β → σ → Prop} {E : ε → σ → Prop}

theorem of_ok {x : Exec ε σ α} (h : Triple P x Q E) {s t : σ} {a : α} (hs : P s)
    (run : x s = (.ok a, t)) : Q a t := by
  have result := h s hs
  rw [run] at result
  exact result

theorem of_error {x : Exec ε σ α} (h : Triple P x Q E) {s t : σ} {e : ε} (hs : P s)
    (run : x s = (.error e, t)) : E e t := by
  have result := h s hs
  rw [run] at result
  exact result

theorem weaken {Q' : α → σ → Prop} {x : Exec ε σ α} (h : Triple P x Q E) (post : ∀ a s, Q a s → Q' a s) :
    Triple P x Q' E := by
  intro s hs
  rcases run : x s with ⟨e | a, t⟩
  · exact h.of_error hs run
  · exact post a t (h.of_ok hs run)

theorem bind {x : Exec ε σ α} {f : α → Exec ε σ β} (first : Triple P x Q E)
    (rest : ∀ a, Triple (Q a) (f a) R E) : Triple P (x >>= f) R E := by
  intro s hs
  rw [bind_apply]
  rcases run : x s with ⟨e | a, t⟩
  · exact first.of_error hs run
  · exact rest a t (first.of_ok hs run)

theorem pure {a : α} (h : ∀ s, P s → Q a s) : Triple P (Pure.pure a : Exec ε σ α) Q E :=
  fun s hs => h s hs

theorem stop {e : ε} (h : ∀ s, P s → E e s) : Triple P (Exec.stop e : Exec ε σ α) Q E :=
  fun s hs => h s hs

theorem ofExcept {x : Except ε α} (ok : ∀ a s, P s → Q a s) (error : ∀ e s, P s → E e s) :
    Triple P (Exec.ofExcept x) Q E := by
  intro s hs
  cases x with
  | ok a => exact ok a s hs
  | error e => exact error e s hs

end Triple

/-- Whatever the outcome, the program ends in `P` when it starts there. -/
def Keeps (P : σ → Prop) (x : Exec ε σ α) : Prop := Triple P x (fun _ => P) (fun _ => P)

namespace Keeps

variable {P : σ → Prop}

theorem after {x : Exec ε σ α} (h : Keeps P x) {s : σ} (hs : P s) : P (x s).2 := by
  rcases run : x s with ⟨e | a, t⟩
  · exact h.of_error hs run
  · exact h.of_ok hs run

theorem bind {x : Exec ε σ α} {f : α → Exec ε σ β} (first : Keeps P x) (rest : ∀ a, Keeps P (f a)) :
    Keeps P (x >>= f) :=
  Triple.bind first rest

theorem pure (a : α) : Keeps P (Pure.pure a : Exec ε σ α) := Triple.pure fun _ => id

theorem stop (e : ε) : Keeps P (Exec.stop e : Exec ε σ α) := Triple.stop fun _ => id

theorem ofExcept (x : Except ε α) : Keeps P (Exec.ofExcept x : Exec ε σ α) :=
  Triple.ofExcept (fun _ _ => id) (fun _ _ => id)

end Keeps

/-- Whatever the state, the program stops only for reasons in `E`. -/
def Stops (E : ε → Prop) (x : Exec ε σ α) : Prop := Triple (fun _ => True) x (fun _ _ => True) (fun e _ => E e)

namespace Stops

variable {E : ε → Prop}

theorem bind {x : Exec ε σ α} {f : α → Exec ε σ β} (first : Stops E x) (rest : ∀ a, Stops E (f a)) : Stops E (x >>= f) :=
  Triple.bind first rest

theorem pure (a : α) : Stops E (Pure.pure a : Exec ε σ α) := Triple.pure fun _ _ => trivial

theorem stop {e : ε} (h : E e) : Stops E (Exec.stop e : Exec ε σ α) := Triple.stop fun _ _ => h

theorem ofExcept {x : Except ε α} (h : ∀ e, x = .error e → E e) : Stops E (Exec.ofExcept x : Exec ε σ α) := by
  cases x with
  | ok a => exact pure a
  | error e => exact stop (h e rfl)

end Stops

/-- From this state, the program stops for a reason in `E`. -/
def Fails (E : ε → Prop) (x : Exec ε σ α) (s : σ) : Prop := ∃ e t, x s = (.error e, t) ∧ E e

section Fails

variable {E : ε → Prop} {s : σ}

theorem fails_bind {x : Exec ε σ α} {f : α → Exec ε σ β} :
    Fails E (x >>= f) s ↔ Fails E x s ∨ ∃ a t, x s = (.ok a, t) ∧ Fails E (f a) t := by
  constructor
  · rintro ⟨e, t, ran, reason⟩
    rcases bind_error ran with failed | ⟨a, u, first, failed⟩
    · exact Or.inl ⟨e, t, failed, reason⟩
    · exact Or.inr ⟨a, u, first, e, t, failed, reason⟩
  · rintro (⟨e, t, failed, reason⟩ | ⟨a, u, first, e, t, failed, reason⟩)
    · exact ⟨e, t, bind_of_error failed, reason⟩
    · exact ⟨e, t, (bind_of_ok first).trans failed, reason⟩

@[simp] theorem fails_pure {a : α} : ¬ Fails E (Pure.pure a : Exec ε σ α) s := by
  rintro ⟨_, _, ran, _⟩
  cases ran

theorem fails_map {x : Exec ε σ α} {f : α → β} : Fails E (do return f (← x)) s ↔ Fails E x s := by
  rw [fails_bind]
  simp

end Fails

/-- From this state, the program succeeds. -/
def Returns (x : Exec ε σ α) (s : σ) : Prop := ∃ a t, x s = (.ok a, t)

section Returns

variable {s : σ}

theorem returns_bind {x : Exec ε σ α} {f : α → Exec ε σ β} :
    Returns (x >>= f) s ↔ ∃ a t, x s = (.ok a, t) ∧ Returns (f a) t := by
  constructor
  · rintro ⟨b, t, ran⟩
    obtain ⟨a, u, first, rest⟩ := bind_ok ran
    exact ⟨a, u, first, b, t, rest⟩
  · rintro ⟨a, u, first, b, t, rest⟩
    exact ⟨b, t, (bind_of_ok first).trans rest⟩

@[simp] theorem returns_pure {a : α} : Returns (Pure.pure a : Exec ε σ α) s := ⟨a, s, rfl⟩

theorem returns_map {x : Exec ε σ α} {f : α → β} : Returns (do return f (← x)) s ↔ Returns x s := by
  rw [returns_bind]
  exact ⟨fun ⟨a, t, ran, _⟩ => ⟨a, t, ran⟩, fun ⟨a, t, ran⟩ => ⟨a, t, ran, returns_pure⟩⟩

theorem returns_iff {x : Exec ε σ α} : Returns x s ↔ ∃ a, (x s).1 = .ok a :=
  ⟨fun ⟨a, _, ran⟩ => ⟨a, congrArg Prod.fst ran⟩, fun ⟨a, ok⟩ => ⟨a, _, Prod.ext ok rfl⟩⟩

end Returns

/-! ### Two programs in step -/

/-- Both succeed with the same value and end in `Q`, or both stop with the same reason and end in `E`. -/
inductive InStep (Q : α → σ → τ → Prop) (E : ε → σ → τ → Prop) : Except ε α × σ → Except ε α × τ → Prop where
  | ok {a : α} {s : σ} {t : τ} (post : Q a s t) : InStep Q E (.ok a, s) (.ok a, t)
  | error {e : ε} {s : σ} {t : τ} (post : E e s t) : InStep Q E (.error e, s) (.error e, t)

/-- From states related by `P`, the two programs run in step. -/
def Sim (P : σ → τ → Prop) (x : Exec ε σ α) (y : Exec ε τ α) (Q : α → σ → τ → Prop)
    (E : ε → σ → τ → Prop) : Prop :=
  ∀ s t, P s t → InStep Q E (x s) (y t)

namespace InStep

variable {Q : α → σ → τ → Prop} {E : ε → σ → τ → Prop}

theorem of_ok {a : α} {s : σ} {r : Except ε α × τ} (h : InStep Q E (.ok a, s) r) :
    ∃ t, r = (.ok a, t) ∧ Q a s t := by
  cases h with
  | ok post => exact ⟨_, rfl, post⟩

theorem of_error {e : ε} {s : σ} {r : Except ε α × τ} (h : InStep Q E (.error e, s) r) :
    ∃ t, r = (.error e, t) ∧ E e s t := by
  cases h with
  | error post => exact ⟨_, rfl, post⟩

theorem outcome {r : Except ε α × σ} {r' : Except ε α × τ} (h : InStep Q E r r') : r.1 = r'.1 := by
  cases h with
  | ok _ | error _ => rfl

/-- Where both ends are related alike, the answers are the same. -/
theorem alike {R : σ → τ → Prop} {r : Except ε α × σ} {r' : Except ε α × τ} (h : InStep (fun _ => R) (fun _ => R) r r') :
    r.1 = r'.1 ∧ R r.2 r'.2 := by
  cases h with
  | ok post => exact ⟨rfl, post⟩
  | error post => exact ⟨rfl, post⟩

theorem to_error {e : ε} {t : τ} {r : Except ε α × σ} (h : InStep Q E r (.error e, t)) :
    ∃ s, r = (.error e, s) ∧ E e s t := by
  cases h with
  | error post => exact ⟨_, rfl, post⟩

end InStep

namespace Sim

variable {P P' : σ → τ → Prop} {Q Q' : α → σ → τ → Prop} {R : β → σ → τ → Prop} {E E' : ε → σ → τ → Prop}

theorem of_ok {x : Exec ε σ α} {y : Exec ε τ α} (h : Sim P x y Q E) {s s' : σ} {t : τ} {a : α}
    (hst : P s t) (run : x s = (.ok a, s')) : ∃ t', y t = (.ok a, t') ∧ Q a s' t' := by
  have both := h s t hst
  rw [run] at both
  exact both.of_ok

theorem of_error {x : Exec ε σ α} {y : Exec ε τ α} (h : Sim P x y Q E) {s s' : σ} {t : τ} {e : ε}
    (hst : P s t) (run : x s = (.error e, s')) : ∃ t', y t = (.error e, t') ∧ E e s' t' := by
  have both := h s t hst
  rw [run] at both
  exact both.of_error

theorem mono {x : Exec ε σ α} {y : Exec ε τ α} (h : Sim P x y Q E) (pre : ∀ s t, P' s t → P s t)
    (post : ∀ a s t, Q a s t → Q' a s t) (stopped : ∀ e s t, E e s t → E' e s t) :
    Sim P' x y Q' E' := by
  intro s t hst
  rcases run : x s with ⟨e | a, s'⟩
  · obtain ⟨t', other, done⟩ := h.of_error (pre s t hst) run
    rw [other]
    exact .error (stopped _ _ _ done)
  · obtain ⟨t', other, done⟩ := h.of_ok (pre s t hst) run
    rw [other]
    exact .ok (post _ _ _ done)

theorem bind {x : Exec ε σ α} {y : Exec ε τ α} {f : α → Exec ε σ β} {g : α → Exec ε τ β}
    (first : Sim P x y Q E) (rest : ∀ a, Sim (Q a) (f a) (g a) R E) : Sim P (x >>= f) (y >>= g) R E := by
  intro s t hst
  rw [bind_apply, bind_apply]
  rcases run : x s with ⟨e | a, s'⟩
  · obtain ⟨t', other, post⟩ := first.of_error hst run
    rw [other]
    exact .error post
  · obtain ⟨t', other, post⟩ := first.of_ok hst run
    rw [other]
    exact rest a s' t' post

theorem pure {a : α} (h : ∀ s t, P s t → Q a s t) :
    Sim P (Pure.pure a : Exec ε σ α) (Pure.pure a : Exec ε τ α) Q E :=
  fun s t hst => .ok (h s t hst)

theorem stop {e : ε} (h : ∀ s t, P s t → E e s t) :
    Sim P (Exec.stop e : Exec ε σ α) (Exec.stop e : Exec ε τ α) Q E :=
  fun s t hst => .error (h s t hst)

theorem ofExcept {x : Except ε α} (ok : ∀ a s t, P s t → Q a s t) (error : ∀ e s t, P s t → E e s t) :
    Sim P (Exec.ofExcept x : Exec ε σ α) (Exec.ofExcept x : Exec ε τ α) Q E := by
  intro s t hst
  cases x with
  | ok a => exact .ok (ok a s t hst)
  | error e => exact .error (error e s t hst)

theorem get_bind {f : σ → Exec ε σ β} {g : τ → Exec ε τ β} (rest : ∀ s t, P s t → InStep R E (f s s) (g t t)) :
    Sim P (get >>= f) (get >>= g) R E :=
  rest

theorem and_right {p : τ → Prop} {q : α → τ → Prop} {r : ε → τ → Prop} {x : Exec ε σ α}
    {y : Exec ε τ α} (h : Sim P x y Q E) (unary : Triple p y q r) :
    Sim (fun s t => P s t ∧ p t) x y (fun a s t => Q a s t ∧ q a t) (fun e s t => E e s t ∧ r e t) := by
  intro s t ⟨hst, ht⟩
  rcases run : x s with ⟨e | a, s'⟩
  · obtain ⟨t', other, post⟩ := h.of_error hst run
    rw [other]
    exact .error ⟨post, unary.of_error ht other⟩
  · obtain ⟨t', other, post⟩ := h.of_ok hst run
    rw [other]
    exact .ok ⟨post, unary.of_ok ht other⟩

/-- What a program keeps in step with another, it keeps by itself. -/
theorem triple {x : Exec ε σ α} {y : Exec ε τ α} (h : Sim P x y Q E) :
    Triple (fun s => ∃ t, P s t) x (fun a s => ∃ t, Q a s t) (fun e s => ∃ t, E e s t) := by
  rintro s ⟨t, hst⟩
  rcases run : x s with ⟨e | a, s'⟩
  · obtain ⟨t', _, post⟩ := h.of_error hst run
    exact ⟨t', post⟩
  · obtain ⟨t', _, post⟩ := h.of_ok hst run
    exact ⟨t', post⟩

end Sim

/-- The two programs run in step, and `R` holds again whatever the outcome. -/
def Lockstep (R : σ → τ → Prop) (x : Exec ε σ α) (y : Exec ε τ α) : Prop :=
  Sim R x y (fun _ => R) (fun _ => R)

namespace Lockstep

variable {R : σ → τ → Prop}

theorem bind {x : Exec ε σ α} {y : Exec ε τ α} {f : α → Exec ε σ β} {g : α → Exec ε τ β}
    (first : Lockstep R x y) (rest : ∀ a, Lockstep R (f a) (g a)) : Lockstep R (x >>= f) (y >>= g) :=
  Sim.bind first rest

theorem pure (a : α) : Lockstep R (Pure.pure a : Exec ε σ α) (Pure.pure a : Exec ε τ α) :=
  Sim.pure fun _ _ => id

theorem stop (e : ε) : Lockstep R (Exec.stop e : Exec ε σ α) (Exec.stop e : Exec ε τ α) :=
  Sim.stop fun _ _ => id

theorem ofExcept (x : Except ε α) : Lockstep R (Exec.ofExcept x : Exec ε σ α) (Exec.ofExcept x : Exec ε τ α) :=
  Sim.ofExcept (fun _ _ _ => id) (fun _ _ _ => id)

end Lockstep

end Exec
