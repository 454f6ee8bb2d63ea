import BandChain.Store.Storage

/-! What `Data::exist` answers over a session, and when a read changes it. -/

namespace BandChain.Data

variable {α : Type} [Serial α]

inductive Call (α : Type) where
  | read
  | assign (val : α)
  | erase
  | exist
  deriving DecidableEq

inductive Reply (α : Type) where
  | value (val : α)
  | done
  | exists (there : Bool)
  deriving DecidableEq

/-- A call in a session on a store that holds `stored` for the cell; `T{}` is `fallback`. -/
def step (fallback : Option α) (stored : Option ByteString) (d : Data α) : Call α → Except Stop (Reply α) × Data α
  | .read =>
    match d.valueOr fallback (.ok stored) with
    | .error e => (.error e, d)
    | .ok (val, d') => (.ok (.value val), d')
  | .assign val =>
    match Data.assign val with
    | .error e => (.error e, d)
    | .ok d' => (.ok .done, d')
  | .erase => (.ok .done, Data.erase)
  | .exist => ((d.exist (.ok stored)).map .exists, d)

/-- The answers of a session, up to the call that ends the process if one does. -/
def session (fallback : Option α) (stored : Option ByteString) : Data α → List (Call α) → List (Except Stop (Reply α))
  | _, [] => []
  | d, call :: calls =>
    match d.step fallback stored call with
    | (.error .crash, _) => [.error .crash]
    | (answer, d') => answer :: session fallback stored d' calls

/-- Whether the last of an assignment and an erasure was an assignment. -/
def last (before : Option Bool) : Call α → Option Bool
  | .assign _ => some true
  | .erase => some false
  | .read | .exist => before

/-- Last assigned, or neither assigned nor erased and stored. -/
def present (stored : Option ByteString) (before : List (Call α)) : Bool := (before.foldl last none).getD stored.isSome

/-- Every `exist()` of the session answers whether the cell is present. -/
def Tells (fallback : Option α) (stored : Option ByteString) (calls : List (Call α)) : Prop :=
  ∀ (i : Nat) (answer : Except Stop (Reply α)), calls[i]? = some .exist → (session fallback stored {} calls)[i]? = some answer →
    answer = .ok (.exists (present stored (calls.take i)))

/-- No `exist()` comes after a read and before the first assignment or erasure. -/
def Innocent (read : Bool) : List (Call α) → Prop
  | [] => True
  | .read :: calls => Innocent true calls
  | .exist :: calls => read = false ∧ Innocent read calls
  | .assign _ :: _ | .erase :: _ => True

/-! ### Sessions that have begun -/

section

variable {fallback : Option α} {stored : Option ByteString} {d d' : Data α} {before : Option Bool} {call : Call α} {calls : List (Call α)}
  {answer : Except Stop (Reply α)}

/-- `Tells` for a session that goes on from a cell, after calls with a last assignment or erasure. -/
def TellsFrom (fallback : Option α) (stored : Option ByteString) (before : Option Bool) (d : Data α) (calls : List (Call α)) : Prop :=
  ∀ (i : Nat) (answer : Except Stop (Reply α)), calls[i]? = some .exist → (session fallback stored d calls)[i]? = some answer →
    answer = .ok (.exists (((calls.take i).foldl last before).getD stored.isSome))

theorem tellsFrom_nil : TellsFrom fallback stored before d [] := by
  intro i answer called
  cases called

theorem session_cons (calls : List (Call α)) (answered : d.step fallback stored call = (answer, d')) (alive : answer ≠ .error .crash) :
    d.session fallback stored (call :: calls) = answer :: d'.session fallback stored calls := by
  rw [session, answered]
  rcases answer with (_ | _) | _
  · rfl
  · exact (alive rfl).elim
  · rfl

theorem tellsFrom_cons (answered : d.step fallback stored call = (answer, d')) (alive : answer ≠ .error .crash) :
    TellsFrom fallback stored before d (call :: calls) ↔
      (call = .exist → answer = .ok (.exists (before.getD stored.isSome))) ∧
        TellsFrom fallback stored (last before call) d' calls := by
  have run := session_cons calls answered alive
  constructor
  · intro tells
    refine ⟨fun asked => tells 0 answer (congrArg some asked) (by rw [run]; rfl), fun i later called got => ?_⟩
    exact tells (i + 1) later called (by rw [run]; exact got)
  · rintro ⟨first, rest⟩ i later called got
    rw [run] at got
    cases i with
    | zero =>
      obtain rfl := Option.some.inj got
      exact first (Option.some.inj called)
    | succ i => exact rest i later called got

/-- A process that ended answers no more. -/
theorem tellsFrom_crash (answered : d.step fallback stored call = (.error .crash, d')) (other : call ≠ .exist) :
    TellsFrom fallback stored before d (call :: calls) := by
  intro i later called got
  rw [session, answered] at got
  cases i with
  | zero => exact (other (Option.some.inj called)).elim
  | succ i => cases got

/-- A cell after an assignment or an erasure. -/
def Touched (assigned : Bool) (d : Data α) : Prop :=
  if assigned then d.status = .changed ∧ d.cache.isSome else d = Data.erase

/-- An assignment has an answer, or ends the process. -/
theorem step_assign (fallback : Option α) (stored : Option ByteString) (d : Data α) (val : α) :
    (d.step fallback stored (.assign val)).1 = .error .crash ∨
      ∃ d', d.step fallback stored (.assign val) = (.ok .done, d') ∧ Touched true d' := by
  by_cases whole : intact val = true
  · refine Or.inr ⟨{ status := .changed, cache := some val }, ?_, rfl, rfl⟩
    simp [step, Data.assign, copy, whole, bind, Except.bind, pure, Except.pure]
  · exact Or.inl (by simp [step, Data.assign, copy, whole, bind, Except.bind])

/-- A read of a cell that was touched leaves it, or ends the process. -/
theorem step_read_touched (fallback : Option α) (stored : Option ByteString) {assigned : Bool} (touched : Touched assigned d) :
    (d.step fallback stored .read).1 = .error .crash ∨ (d.step fallback stored .read).2 = d := by
  cases assigned with
  | false =>
    obtain rfl : d = Data.erase := touched
    exact Or.inr rfl
  | true =>
    obtain ⟨changed, cached⟩ := touched
    obtain ⟨val, held⟩ := Option.isSome_iff_exists.mp cached
    by_cases whole : intact val = true
    · exact Or.inr (by simp [step, valueOr, changed, held, copy, whole, bind, Except.bind, pure, Except.pure])
    · exact Or.inl (by simp [step, valueOr, changed, held, copy, whole, bind, Except.bind])

theorem step_exist_touched {assigned : Bool} (touched : Touched assigned d) :
    d.step fallback stored .exist = (.ok (.exists assigned), d) := by
  cases assigned with
  | false =>
    obtain rfl : d = Data.erase := touched
    rfl
  | true =>
    obtain ⟨changed, cached⟩ := touched
    obtain ⟨val, held⟩ := Option.isSome_iff_exists.mp cached
    simp [step, exist, changed, held, Except.map]

/-- Once a cell was assigned or erased, it tells the truth. -/
theorem tellsFrom_touched (assigned : Bool) (touched : Touched assigned d) :
    TellsFrom fallback stored (some assigned) d calls := by
  induction calls generalizing d assigned with
  | nil => exact tellsFrom_nil
  | cons call calls ih =>
    cases call with
    | read =>
      rcases ran : d.step fallback stored .read with ⟨answer, d'⟩
      have after := step_read_touched fallback stored touched
      rw [ran] at after
      by_cases ended : answer = .error .crash
      · subst ended
        exact tellsFrom_crash ran (by simp)
      · obtain rfl : d' = d := after.resolve_left ended
        exact (tellsFrom_cons ran ended).mpr ⟨by simp, ih _ touched⟩
    | assign val =>
      rcases step_assign fallback stored d val with ended | ⟨d', ran, after⟩
      · exact tellsFrom_crash (Prod.ext ended rfl) (by simp)
      · exact (tellsFrom_cons ran (by simp)).mpr ⟨by simp, ih true after⟩
    | erase => exact (tellsFrom_cons (show _ = (.ok .done, _) from rfl) (by simp)).mpr ⟨by simp, ih false rfl⟩
    | exist => exact (tellsFrom_cons (step_exist_touched touched) (by simp)).mpr ⟨fun _ => rfl, ih _ touched⟩

/-! ### Sessions that have not assigned or erased -/

/-- A value that `T{}` makes and that can be copied. -/
def Fallback (fallback : Option α) : Prop := ∃ val, fallback = some val ∧ intact val = true

/-- An untouched cell keeps at most a value that can be copied, which it fetched. -/
structure Fetching (fallback : Option α) (stored : Option ByteString) (d : Data α) : Prop where
  status : d.status = .unchanged
  cached : ∀ val, d.cache = some val → intact val = true ∧ (stored.isSome ∨ Fallback fallback)

/-- A read that returns leaves the value in the cell. One that does not leaves the cell alone, and ends the process only where
a value is stored or `T{}` cannot be copied. -/
theorem Fetching.step_read (fetching : Fetching fallback stored d) :
    (∃ val, (d.step fallback stored .read).1 = .ok (.value val) ∧ (d.step fallback stored .read).2.cache = some val ∧
        Fetching fallback stored (d.step fallback stored .read).2) ∨
      (stored.isSome ∨ ¬ Fallback fallback) ∧
        ((d.step fallback stored .read).1 = .error .crash ∨ (d.step fallback stored .read).2 = d) := by
  obtain ⟨status, cache⟩ := d
  obtain ⟨rfl, cached⟩ := fetching
  cases cache with
  | some val =>
    obtain ⟨whole, source⟩ := cached val rfl
    refine Or.inl ⟨val, ?_⟩
    simpa [step, valueOr, copy, whole, bind, Except.bind, pure, Except.pure] using ⟨rfl, cached⟩
  | none =>
    have kept {val : α} (whole : intact val = true) (source : stored.isSome ∨ Fallback fallback) :
        Fetching fallback stored { status := .unchanged, cache := some val } :=
      ⟨rfl, fun _ same => Option.some.inj same ▸ ⟨whole, source⟩⟩
    rcases stored with _ | raw
    · rcases fallback with _ | val
      · refine Or.inr ⟨Or.inr ?_, Or.inr rfl⟩
        rintro ⟨_, wrong, _⟩
        cases wrong
      · by_cases whole : intact val = true
        · refine Or.inl ⟨val, ?_⟩
          simpa [step, valueOr, copy, whole, bind, Except.bind, pure, Except.pure] using kept whole (Or.inr ⟨val, rfl, whole⟩)
        · refine Or.inr ⟨Or.inr ?_, Or.inl (by simp [step, valueOr, copy, whole, bind, Except.bind])⟩
          rintro ⟨_, same, intact⟩
          exact whole (Option.some.inj same ▸ intact)
    · rcases decoded : deserialize (α := α) raw with e | val
      · exact Or.inr ⟨Or.inl rfl, Or.inr (by simp [step, valueOr, decoded, bind, Except.bind])⟩
      · by_cases whole : intact val = true
        · refine Or.inl ⟨val, ?_⟩
          simpa [step, valueOr, decoded, copy, whole, bind, Except.bind, pure, Except.pure] using kept whole (Or.inl rfl)
        · exact Or.inr ⟨Or.inl rfl, Or.inl (by simp [step, valueOr, decoded, copy, whole, bind, Except.bind])⟩

theorem Fetching.step_exist (fetching : Fetching fallback stored d) :
    d.step fallback stored .exist = (.ok (.exists (d.cache.isSome || stored.isSome)), d) := by
  obtain ⟨status, cache⟩ := d
  obtain ⟨rfl, _⟩ := fetching
  cases cache <;> rfl

theorem Fetching.tells_iff (fetching : Fetching fallback stored d) :
    TellsFrom fallback stored none d calls ↔ stored.isSome ∨ ¬ Fallback fallback ∨ Innocent d.cache.isSome calls := by
  induction calls generalizing d with
  | nil => exact iff_of_true tellsFrom_nil (Or.inr (Or.inr trivial))
  | cons call calls ih =>
    cases call with
    | read =>
      rcases ran : d.step fallback stored .read with ⟨answer, d'⟩
      have read := fetching.step_read
      rw [ran] at read
      rcases read with ⟨val, rfl, cached, fetching'⟩ | ⟨source, after⟩
      · have rest := ih fetching'
        rw [tellsFrom_cons ran (by simp)]
        rw [show d'.cache = some val from cached] at rest
        simpa [last, Innocent] using rest
      · have fine : stored.isSome ∨ ¬ Fallback fallback ∨ Innocent d.cache.isSome (.read :: calls) := by
          rcases source with stored | poor
          · exact Or.inl stored
          · exact Or.inr (Or.inl poor)
        refine iff_of_true ?_ fine
        by_cases ended : answer = .error .crash
        · subst ended
          exact tellsFrom_crash ran (by simp)
        · obtain rfl : d' = d := after.resolve_left ended
          refine (tellsFrom_cons ran ended).mpr ⟨by simp, (ih fetching).mpr ?_⟩
          rcases source with stored | poor
          · exact Or.inl stored
          · exact Or.inr (Or.inl poor)
    | assign val =>
      refine iff_of_true ?_ (Or.inr (Or.inr trivial))
      rcases step_assign fallback stored d val with ended | ⟨d', ran, touched⟩
      · exact tellsFrom_crash (Prod.ext ended rfl) (by simp)
      · exact (tellsFrom_cons ran (by simp)).mpr ⟨by simp, tellsFrom_touched true touched⟩
    | erase =>
      refine iff_of_true ?_ (Or.inr (Or.inr trivial))
      exact (tellsFrom_cons (show _ = (.ok .done, _) from rfl) (by simp)).mpr ⟨by simp, tellsFrom_touched false rfl⟩
    | exist =>
      rw [tellsFrom_cons fetching.step_exist (by simp), last, ih fetching, Innocent]
      rcases cached : d.cache with _ | val
      · simp
      · have source := (fetching.cached val cached).2
        rcases source with there | rich
        · simp [there]
        · cases stored <;> simp [rich]

end

/-- `exist()` tells the truth throughout a session if the cell is stored, or has no `T{}` that can be copied, or is not asked
after a read and before the first assignment or erasure. -/
theorem exist_iff (fallback : Option α) (stored : Option ByteString) (calls : List (Call α)) :
    Tells fallback stored calls ↔ stored.isSome ∨ ¬ Fallback fallback ∨ Innocent false calls :=
  Fetching.tells_iff (d := {}) ⟨rfl, nofun⟩

/-- A supply that is not stored exists once it was read. -/
theorem exist_after_read : ¬ Tells (some (0 : UInt256)) none [.read, .exist] := by
  intro tells
  have answer := tells 1 (.ok (.exists true)) rfl rfl
  revert answer
  decide

end BandChain.Data
