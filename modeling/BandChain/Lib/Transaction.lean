/-!
A table that one session writes, inside of transactions and outside, in a database that may refuse a statement or lose its
answer. A row stays exactly if no transaction was open when it was inserted, or the next begin, commit or rollback after it is a
commit.
-/

namespace Transaction

variable {ρ : Type}

inductive Op (ρ : Type) where
  | begin
  | insert (row : ρ)
  | commit
  | rollback

/-- The rows that stay, and those of the transaction that is open. -/
structure Table (ρ : Type) where
  rows : List ρ := []
  opened : Option (List ρ) := none

/-- To begin is to drop what an open transaction holds. -/
def Table.step (t : Table ρ) : Op ρ → Table ρ
  | .begin => { t with opened := some [] }
  | .insert row =>
    match t.opened with
    | some rows => { t with opened := some (rows ++ [row]) }
    | none => { t with rows := t.rows ++ [row] }
  | .commit => { rows := t.rows ++ t.opened.getD [] }
  | .rollback => { t with opened := none }

def Table.run (t : Table ρ) (ops : List (Op ρ)) : Table ρ := ops.foldl step t

theorem Table.run_append (t : Table ρ) (ops more : List (Op ρ)) : t.run (ops ++ more) = (t.run ops).run more := List.foldl_append ..

/-- Of the begins, commits and rollbacks, the first is a commit. -/
def commits : List (Op ρ) → Bool
  | [] | .begin :: _ | .rollback :: _ => false
  | .insert _ :: ops => commits ops
  | .commit :: _ => true

/-- The rows that stay, where a transaction may be open before. -/
def durable : (opened : Bool) → List (Op ρ) → List ρ
  | _, [] => []
  | _, .begin :: ops => durable true ops
  | opened, .insert row :: ops => (if opened && !commits ops then [] else [row]) ++ durable opened ops
  | _, .commit :: ops | _, .rollback :: ops => durable false ops

theorem Table.rows_of_run (t : Table ρ) (ops : List (Op ρ)) :
    (t.run ops).rows = t.rows ++ (if commits ops then t.opened.getD [] else []) ++ durable t.opened.isSome ops := by
  induction ops generalizing t with
  | nil => simp [run, commits, durable]
  | cons op ops ih =>
    have rest : t.run (op :: ops) = (t.step op).run ops := rfl
    rw [rest, ih]
    cases op with
    | begin => simp [step, commits, durable]
    | insert row =>
      cases opened : t.opened with
      | none => simp [step, opened, durable]
      | some rows => cases commits : commits ops <;> simp [step, opened, Transaction.commits, durable, commits]
    | commit => simp [step, commits, durable]
    | rollback => simp [step, commits, durable]

/-- From a table with no transaction. -/
theorem rows_of_clear {t : Table ρ} (clear : t.opened = none) (ops : List (Op ρ)) : (t.run ops).rows = t.rows ++ durable false ops := by
  have rows := t.rows_of_run ops
  simpa [clear] using rows

/-! ### Fewer rows -/

/-- The same begins, commits and rollbacks, with some of the rows between them. -/
inductive Thinned : List (Op ρ) → List (Op ρ) → Prop where
  | nil : Thinned [] []
  | same (op : Op ρ) {ops more : List (Op ρ)} (rest : Thinned ops more) : Thinned (op :: ops) (op :: more)
  | without (row : ρ) {ops more : List (Op ρ)} (rest : Thinned ops more) : Thinned ops (.insert row :: more)

theorem Thinned.append {ops more ops' more' : List (Op ρ)} (first : Thinned ops more) (second : Thinned ops' more') :
    Thinned (ops ++ ops') (more ++ more') := by
  induction first with
  | nil => exact second
  | same op _ ih => exact .same op ih
  | without row _ ih => exact .without row ih

theorem Thinned.refl (ops : List (Op ρ)) : Thinned ops ops := by
  induction ops with
  | nil => exact .nil
  | cons op ops ih => exact .same op ih

theorem Thinned.commits {ops more : List (Op ρ)} (thinned : Thinned ops more) : commits ops = commits more := by
  induction thinned with
  | nil => rfl
  | same op _ ih => cases op <;> simp only [Transaction.commits, ih]
  | without row _ ih => rw [Transaction.commits, ih]

theorem Thinned.durable {ops more : List (Op ρ)} (thinned : Thinned ops more) (opened : Bool) :
    (durable opened ops).Sublist (durable opened more) := by
  induction thinned generalizing opened with
  | nil => exact List.Sublist.refl _
  | @same op ops more rest ih =>
    cases op with
    | begin => exact ih true
    | insert row =>
      rw [Transaction.durable, Transaction.durable, rest.commits]
      exact List.Sublist.append_left (ih opened) _
    | commit | rollback => exact ih false
  | @without row ops more _ ih =>
    rw [Transaction.durable]
    exact (ih opened).trans (List.sublist_append_right _ _)

/-! ### Databases -/

variable {δ : Type}

/-- A database that a session is connected to. It does a statement, and the session is told that it was accepted, or is not. -/
structure Database (ρ δ : Type) where
  execute : Op ρ → δ → Bool × δ
  /-- What the table holds. -/
  view : δ → Table ρ

/-- What is relied on of a database. -/
structure Database.Lawful (db : Database ρ δ) : Prop where
  begin {d d' : δ} (told : db.execute .begin d = (true, d')) (clear : (db.view d).opened = none) : db.view d' = (db.view d).step .begin
  insert {row : ρ} {d d' : δ} (told : db.execute (.insert row) d = (true, d')) : db.view d' = (db.view d).step (.insert row)
  commit {d d' : δ} (told : db.execute .commit d = (true, d')) (opened : (db.view d).opened ≠ none) :
    db.view d' = (db.view d).step .commit
  /-- A transaction that is given up is gone, whatever the session is told. -/
  rollback {told : Bool} {d d' : δ} (ran : db.execute .rollback d = (told, d')) : db.view d' = (db.view d).step .rollback
  /-- A statement that is refused changes no row that stays, and one whose answer is lost was done. -/
  refused {op : Op ρ} {d d' : δ} (ran : db.execute op d = (false, d')) :
    (db.view d').rows = (db.view d).rows ∨ (db.view d').rows = ((db.view d).step op).rows

/-- The table itself, which accepts a statement or not, and loses the answers to some of those it does. -/
def Table.database (accepts loses : Table ρ → Op ρ → Bool) : Database ρ (Table ρ) where
  execute
    | .rollback, t => (accepts t .rollback, t.step .rollback)
    | op, t => if accepts t op then (!loses t op, t.step op) else (false, t)
  view := id

theorem Table.lawful (accepts loses : Table ρ → Op ρ → Bool) : (database accepts loses).Lawful := by
  have done {op : Op ρ} {t t' : Table ρ} (told : (if accepts t op then (!loses t op, t.step op) else (false, t)) = (true, t')) :
      t' = t.step op := by
    split at told
    · exact (Prod.mk.inj told).2.symm
    · cases told
  constructor
  · intro t t' told _
    exact done told
  · intro row t t' told
    exact done told
  · intro t t' told _
    exact done told
  · intro told t t' ran
    exact (Prod.mk.inj ran).2.symm
  · intro op t t' ran
    cases op with
    | rollback =>
      obtain ⟨_, rfl⟩ := Prod.mk.inj ran
      exact Or.inl rfl
    | begin | insert _ | commit =>
      unfold database at ran
      dsimp only at ran
      split at ran <;> obtain ⟨_, rfl⟩ := Prod.mk.inj ran
      · exact Or.inr rfl
      · exact Or.inl rfl

end Transaction
