import Mathlib.Data.Set.Basic
import Mathlib.Logic.Function.Basic

/-!
Writing pending values back into a map. The writes form a set, so an implementation may put them in
any order; the result is determined as long as no key is written with two values.
-/

namespace WriteBack

variable {K β : Type}

/-- No key is written with two values. -/
def Functional (w : Set (K × β)) : Prop := ∀ ⦃k : K⦄ ⦃b b' : β⦄, (k, b) ∈ w → (k, b') ∈ w → b = b'

open Classical in
/-- The map after the writes: a written key holds what was written, every other key what it held. -/
noncomputable def commit (w : Set (K × β)) (m : K → Option β) : K → Option β := fun k =>
  if h : ∃ b, (k, b) ∈ w then some h.choose else m k

theorem commit_of_mem {w : Set (K × β)} (single : Functional w) (m : K → Option β) {k : K} {b : β}
    (mem : (k, b) ∈ w) : commit w m k = some b := by
  have written : ∃ b, (k, b) ∈ w := ⟨b, mem⟩
  rw [commit, dif_pos written, single written.choose_spec mem]

theorem commit_of_clear {w : Set (K × β)} (m : K → Option β) {k : K} (clear : ∀ b, (k, b) ∉ w) :
    commit w m k = m k :=
  dif_neg fun ⟨b, mem⟩ => clear b mem

theorem clear_of_commit {w : Set (K × β)} {m : K → Option β} {k : K} (clear : commit w m k = none) : m k = none := by
  unfold commit at clear
  split at clear
  · cases clear
  · exact clear

def putAll [DecidableEq K] (l : List (K × β)) (m : K → Option β) : K → Option β :=
  l.foldl (fun m e => Function.update m e.1 (some e.2)) m

def changeAll [DecidableEq K] (l : List (K × Option β)) (m : K → Option β) : K → Option β :=
  l.foldl (fun m e => Function.update m e.1 e.2) m

theorem changeAll_of_clear [DecidableEq K] {l : List (K × Option β)} (m : K → Option β) {k : K}
    (clear : ∀ b, (k, b) ∉ l) : changeAll l m k = m k := by
  induction l generalizing m with
  | nil => rfl
  | cons e l ih =>
    have other : k ≠ e.1 := by
      rintro rfl
      exact clear e.2 List.mem_cons_self
    exact (ih _ (fun b mem => clear b (List.mem_cons_of_mem _ mem))).trans (Function.update_of_ne other _ _)

theorem changeAll_of_mem [DecidableEq K] {l : List (K × Option β)} (single : Functional {e | e ∈ l}) (m : K → Option β)
    {k : K} {b : Option β} (mem : (k, b) ∈ l) : changeAll l m k = b := by
  induction l generalizing m with
  | nil => cases mem
  | cons e l ih =>
    have tail : Functional {e | e ∈ l} :=
      fun _ _ _ first second => single (List.mem_cons_of_mem _ first) (List.mem_cons_of_mem _ second)
    by_cases again : ∃ b', (k, b') ∈ l
    · obtain ⟨b', later⟩ := again
      obtain rfl := single mem (List.mem_cons_of_mem _ later)
      exact ih tail _ later
    · have clear : ∀ b', (k, b') ∉ l := fun b' later => again ⟨b', later⟩
      rcases List.mem_cons.mp mem with rfl | later
      · exact (changeAll_of_clear _ clear).trans (Function.update_self _ _ _)
      · exact (clear b later).elim

theorem putAll_eq_changeAll [DecidableEq K] (l : List (K × β)) (m : K → Option β) :
    putAll l m = changeAll (l.map fun e => (e.1, some e.2)) m := by
  rw [changeAll, List.foldl_map]
  rfl

theorem putAll_of_clear [DecidableEq K] {l : List (K × β)} (m : K → Option β) {k : K}
    (clear : ∀ b, (k, b) ∉ l) : putAll l m k = m k := by
  rw [putAll_eq_changeAll, changeAll_of_clear]
  intro b mem
  obtain ⟨e, put, same⟩ := List.mem_map.mp mem
  obtain ⟨rfl, rfl⟩ := Prod.mk.inj same
  exact clear e.2 put

theorem putAll_of_mem [DecidableEq K] {l : List (K × β)} (single : Functional {e | e ∈ l}) (m : K → Option β)
    {k : K} {b : β} (mem : (k, b) ∈ l) : putAll l m k = some b := by
  have changes : Functional {e | e ∈ l.map fun e => (e.1, some e.2)} := by
    intro k b b' first second
    obtain ⟨e, put, same⟩ := List.mem_map.mp first
    obtain ⟨rfl, rfl⟩ := Prod.mk.inj same
    obtain ⟨e', put', same'⟩ := List.mem_map.mp second
    obtain ⟨keys, rfl⟩ := Prod.mk.inj same'
    rw [single put (show (e.1, e'.2) ∈ l from keys ▸ put')]
  rw [putAll_eq_changeAll, changeAll_of_mem changes m (List.mem_map_of_mem mem)]

/-- Whatever its order, a list of puts commits the set of its entries. -/
theorem putAll_eq_commit [DecidableEq K] {l : List (K × β)} {w : Set (K × β)} (same : ∀ e, e ∈ l ↔ e ∈ w)
    (single : Functional w) (m : K → Option β) : putAll l m = commit w m := by
  have entries : Functional {e | e ∈ l} := fun _ _ _ first second => single ((same _).mp first) ((same _).mp second)
  funext k
  by_cases written : ∃ b, (k, b) ∈ w
  · obtain ⟨b, mem⟩ := written
    rw [commit_of_mem single m mem, putAll_of_mem entries m ((same _).mpr mem)]
  · have clear : ∀ b, (k, b) ∉ w := fun b mem => written ⟨b, mem⟩
    rw [commit_of_clear m clear, putAll_of_clear m (fun b mem => clear b ((same _).mp mem))]

/-! ### Writes of indexed cells -/

variable {ι : Type} {V : ι → Type} (key : ι → K) (enc : (i : ι) → V i → β)

/-- The writes of the cells that hold a pending value. -/
def writes (pending : (i : ι) → Option (V i)) : Set (K × β) :=
  { e | ∃ i v, pending i = some v ∧ e = (key i, enc i v) }

/-- Pending cells have keys of their own. -/
def Separate (pending : (i : ι) → Option (V i)) : Prop :=
  ∀ ⦃i j : ι⦄, pending i ≠ none → pending j ≠ none → key i = key j → i = j

variable {key enc} {pending : (i : ι) → Option (V i)}

theorem Separate.functional (separate : Separate key pending) : Functional (writes key enc pending) := by
  rintro k b b' ⟨i, v, held, same⟩ ⟨j, w, held', same'⟩
  obtain ⟨rfl, rfl⟩ := Prod.mk.inj same
  obtain ⟨keys, rfl⟩ := Prod.mk.inj same'
  obtain rfl := separate (by rw [held]; simp) (by rw [held']; simp) keys
  rw [held] at held'
  rw [Option.some.inj held']

theorem commit_of_pending (separate : Separate key pending) (m : K → Option β) {i : ι} {v : V i}
    (held : pending i = some v) : commit (writes key enc pending) m (key i) = some (enc i v) :=
  commit_of_mem separate.functional m ⟨i, v, held, rfl⟩

theorem commit_of_untouched (m : K → Option β) {k : K} (untouched : ∀ i, key i = k → pending i = none) :
    commit (writes key enc pending) m k = m k := by
  apply commit_of_clear
  rintro b ⟨i, v, held, same⟩
  rw [untouched i (Prod.mk.inj same).1.symm] at held
  cases held

end WriteBack
